import QuadraticProgram.Proofs.Run.Anchored
import QuadraticProgram.Proofs.Run.Converged

/-! # Descent

In a seated state the held entries do not move and the free ones have no multipliers, so no
multiplier does any work along the step. Then the slope of the objective along the Newton direction
is the negated curvature, whatever the multipliers of the held entries are, and a step of length
`t` changes the objective by `-t (1 - t / 2)` times the curvature.
-/
namespace QuadraticProgram
open Matrix

variable {n m : ℕ} {unit : ℝ} {S : Analysis n m} {P : Problem ℝ EReal n m}
variable {g : PrimalDual ℝ n m} {s : State ℝ n m}

noncomputable def Attempt.curvature (P : Problem ℝ EReal n m) (a : Attempt ℝ n m) : ℝ :=
  (onVariables a.direction.value).get ⬝ᵥ P.hessian.toMatrix *ᵥ (onVariables a.direction.value).get

namespace State.Seated

variable (hP : P.Proper) (hH : P.hessian.toMatrix.IsSymm) (hS : S.Covers P) (hs : s.Seated P)
  (hz : S.Solves P s.value s.active (attempt S P s).solution)
include hP hS hs hz

theorem multiplier_mul_direction (e : Fin (n + m)) :
    s.active.multiplier.get e * (attempt S P s).direction.value.get e = 0 := by
  by_cases he : s.active.status.get e = .inactive
  · rw [(hs.anchored.coherent.admits e).multiplier_eq_zero he, zero_mul]
  · rw [hs.direction_eq_zero hP hS hz he, mul_zero]

theorem multiplierDirection_mul_direction (e : Fin (n + m)) :
    (attempt S P s).direction.multiplier.get e * (attempt S P s).direction.value.get e = 0 := by
  by_cases he : s.active.status.get e = .inactive
  · rw [get_multiplier_direction_of_inactive S P s he, zero_mul]
  · rw [hs.direction_eq_zero hP hS hz he, mul_zero]

include hH

/-- The balance pushes along the step against the curvature. -/
theorem balance_dotProduct_direction :
    ∑ i, P.balance s.point s.active.multiplier i *
        (onVariables (attempt S P s).direction.value).get i =
      -(attempt S P s).curvature P := by
  let d := (onVariables (attempt S P s).solution).get
  let δ := (attempt S P s).direction.multiplier.get
  have htilt : P.tilt d δ = fun i => -P.balance s.point s.active.multiplier i :=
    funext fun i => hs.anchored.coherent.tilt_direction hH hS hz i
  -- the energy along the step is all curvature: held entries do not move, free ones do not push
  have hwork : ∑ e, δ e * (P.normal e ⬝ᵥ d) = 0 := by
    refine Finset.sum_eq_zero fun e _ => ?_
    rw [State.Coherent.normal_dotProduct_solution]
    exact hs.multiplierDirection_mul_direction hP hS hz e
  have henergy := P.dotProduct_tilt d δ
  rw [htilt, hwork, add_zero] at henergy
  rw [Attempt.curvature, onVariables_direction, ← henergy, dotProduct, ← Finset.sum_neg_distrib]
  exact Finset.sum_congr rfl fun i _ => by ring

theorem objective_advanced :
    (attempt S P s).advanced.objective =
      s.objective - (attempt S P s).limit.length * (1 - (attempt S P s).limit.length / 2) *
        (attempt S P s).curvature P := by
  have hcoherent := hs.anchored.coherent
  have hmove := hcoherent.get_point_advanced hP hs.anchored.inequalities.variables S
  rw [← onVariables_direction] at hmove
  have hwork : ∑ e, s.active.multiplier.get e *
      (P.valuesAt (onVariables (attempt S P s).direction.value)).get e = 0 := by
    refine Finset.sum_eq_zero fun e _ => ?_
    rw [onVariables_direction]
    exact hs.multiplier_mul_direction hP hS hz e
  have hchange := Problem.objective_add_smul hH _ hmove s.active.multiplier
  rw [hwork, hs.balance_dotProduct_direction hP hH hS hz, ← hcoherent.objective,
    ← (hcoherent.advanced hP S).objective, ← Attempt.curvature] at hchange
  linarith

end State.Seated

section Above

open Problem

theorem Problem.feasible_above : aboveOne.Feasible PrimalDual.above.point := within_above

theorem length_above_pos (rule : ColumnOrder) :
    0 < (attempt (aboveOne.analyze rule) aboveOne (State.start aboveOne .above)).limit.length :=
  one_half_pos.trans_eq (limit_above rule).2.1.symm

end Above

/-- From a feasible point, with the held entries on their bounds, no iteration raises a convex
objective, and a step along which there is curvature lowers it. The held entries stay on their
bounds. An iteration that ends the run without a step changes neither the point nor the
objective. -/
theorem Reached.objective_descends (hunit : 0 ≤ unit) (hP : P.Proper)
    (hH : P.hessian.toMatrix.PosSemidef) (hS : S.Covers P) (hg : P.Feasible g.point) :
    ((∀ e, g.multiplier.get e = 0) → (State.start P g).HeldOnBounds P) ∧
      ((State.start P g).HeldOnBounds P → ∀ s, Reached unit S P g s →
        (∀ e, (s.active.status.get e).IsActive → ((s.value.get e : ℝ) : EReal) =
          (s.active.status.get e).boundOn (P.lower.get e) (P.upper.get e)) ∧
        (QuadraticProgram.iterate unit S P s).objective ≤ s.objective ∧
        (¬ (attempt S P s).IsFatal unit → 0 < (QuadraticProgram.iterate unit S P s).length →
          0 < (attempt S P s).curvature P →
          (QuadraticProgram.iterate unit S P s).objective < s.objective) ∧
        ((attempt S P s).IsFatal unit → (QuadraticProgram.iterate unit S P s).value = s.value ∧
          (QuadraticProgram.iterate unit S P s).objective = s.objective)) := by
  refine ⟨State.heldOnBounds_start, fun hheld s hs => ?_⟩
  have hseated := hs.seated hunit hP hS hg hheld
  refine ⟨fun e => hseated.onBound, ?_⟩
  by_cases hfatal : (attempt S P s).IsFatal unit
  · obtain ⟨outcome, index, length, -, hnext⟩ := iterate_of_isFatal hfatal
    rw [hnext]
    exact ⟨le_rfl, fun hregular => absurd hfatal hregular, fun _ => ⟨rfl, rfl⟩⟩
  have hz := solves_of_not_isFatal hunit hS hfatal
  have hcurvature : 0 ≤ (attempt S P s).curvature P := hH.dotProduct_mulVec_nonneg _
  have hlength := hseated.anchored.coherent.length_nonneg hP S
  have hrest : 0 < 1 - (attempt S P s).limit.length / 2 := by
    have hle : (attempt S P s).limit.length ≤ 1 := length_stepLimit_le_one _
    linarith
  rw [iterate_of_not_isFatal hfatal, hseated.objective_advanced hP hH.isHermitian hS hz]
  refine ⟨sub_le_self _ (mul_nonneg (mul_nonneg hlength hrest.le) hcurvature), ?_,
    fun hstuck => absurd hstuck hfatal⟩
  intro _ hpos hcurved
  exact sub_lt_self _ (mul_pos (mul_pos hpos hrest) hcurved)

theorem Reached.objective_descends_above :
    let S := Problem.aboveOne.analyze .natural
    let s := State.start Problem.aboveOne .above
    Problem.aboveOne.Proper ∧ Problem.aboveOne.hessian.toMatrix.PosSemidef ∧
      S.Covers Problem.aboveOne ∧ Problem.aboveOne.Feasible PrimalDual.above.point ∧
      s.HeldOnBounds Problem.aboveOne ∧ ¬ (attempt S Problem.aboveOne s).IsFatal 0 ∧
      0 < (QuadraticProgram.iterate 0 S Problem.aboveOne s).length ∧
      0 < (attempt S Problem.aboveOne s).curvature Problem.aboveOne ∧
      (QuadraticProgram.iterate 0 S Problem.aboveOne s).objective < s.objective := by
  intro S s
  have hS := covers_analyze Problem.aboveOne .natural
  have hH := Problem.posDef_hessian_aboveOne.posSemidef
  have hregular : ¬ (attempt S Problem.aboveOne s).IsFatal 0 := not_isFatal_above .natural
  have hlength : 0 < (QuadraticProgram.iterate 0 S Problem.aboveOne s).length := by
    rw [iterate_of_not_isFatal hregular]
    exact length_above_pos .natural
  have hcurvature : 0 < (attempt S Problem.aboveOne s).curvature Problem.aboveOne := by
    rw [Attempt.curvature, Problem.hessian_aboveOne, one_mulVec, dotProduct, Fin.sum_univ_one,
      get_onVariables]
    have hdirection : (attempt S Problem.aboveOne s).direction.value.get (Fin.castAdd 0 0) = -2 :=
      direction_above .natural
    rw [hdirection]
    norm_num
  have hdescends := objective_descends le_rfl Problem.proper_aboveOne hH hS Problem.feasible_above
  have hheld := hdescends.1 get_multiplier_above
  exact ⟨Problem.proper_aboveOne, hH, hS, Problem.feasible_above, hheld, hregular, hlength,
    hcurvature, (hdescends.2 hheld s .start).2.2.1 hregular hlength hcurvature⟩

end QuadraticProgram
