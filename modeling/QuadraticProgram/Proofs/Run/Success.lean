import Mathlib.Algebra.Order.Star.Real
import QuadraticProgram.Proofs.Optimality
import QuadraticProgram.Proofs.Run.Feasibility

/-! # What success means

A run succeeds by a full step from a coherent state. That step balances the gradient and takes every
held entry onto its bound, and the state after it is coherent again: so multipliers push only
against bounds that are reached. If the inequalities held at the guess the point is feasible, and
for a convex objective no feasible point is better.
-/
namespace QuadraticProgram

variable {n m : ℕ} {unit : ℝ} {S : Analysis n m} {P : Problem ℝ EReal n m}
variable {g : PrimalDual ℝ n m} {s : State ℝ n m}

structure State.Settled (P : Problem ℝ EReal n m) (s : State ℝ n m) : Prop where
  balance : ∀ i, P.balance s.point s.active.multiplier i = 0
  complementary : ∀ e, Complementary (P.lower.get e) (P.upper.get e) ((P.valuesAt s.point).get e)
    (s.active.multiplier.get e)
  held : ∀ e, (s.active.status.get e).IsActive →
    (((P.valuesAt s.point).get e : ℝ) : EReal) =
      (s.active.status.get e).boundOn (P.lower.get e) (P.upper.get e)

namespace State.Coherent

section FullStep

variable (hfull : (attempt S P s).limit.index = none)
include hfull

theorem get_point_of_full_step (i : Fin n) :
    (attempt S P s).advanced.point.get i =
      s.value.get (i.castAdd m) + (onVariables (attempt S P s).solution).get i := by
  have hlength : (attempt S P s).limit.length = 1 := stepLimit_of_no_index hfull
  rw [point_advanced, Problem.pointAfter, get_ofFn, hfull, if_neg (Option.some_ne_none _).symm,
    hlength, one_mul, point, get_onVariables]

theorem get_multiplier_of_full_step (e : Fin (n + m)) :
    (attempt S P s).advanced.active.multiplier.get e =
      s.active.multiplier.get e + (attempt S P s).direction.multiplier.get e := by
  have hlength : (attempt S P s).limit.length = 1 := stepLimit_of_no_index hfull
  rw [active_advanced, Problem.get_multiplier_activeAfter, hfull,
    if_neg (Option.some_ne_none _).symm, hlength, one_mul]

theorem get_status_of_full_step (e : Fin (n + m)) :
    (attempt S P s).advanced.active.status.get e =
      (s.active.status.get e).followSign (P.lower.get e) (P.upper.get e)
        ((attempt S P s).advanced.active.multiplier.get e) := by
  rw [active_advanced, Problem.get_status_activeAfter, hfull,
    if_neg (Option.some_ne_none _).symm]

theorem get_value_of_full_step (hs : s.Coherent P) (e : Fin (n + m)) :
    (P.valuesAt (attempt S P s).advanced.point).get e =
      s.value.get e + (attempt S P s).direction.value.get e := by
  have hpoint : ∀ i, (attempt S P s).advanced.point.get i =
      s.point.get i + 1 * (onVariables (attempt S P s).solution).get i := by
    intro i
    rw [get_point_of_full_step hfull, one_mul, point, get_onVariables s.value]
  rw [P.get_valuesAt_add_smul 1 hpoint, ← hs.value, one_mul]
  rfl

end FullStep

/-- A full step settles everything but the inequalities. -/
theorem settled (hP : P.Proper) (hH : P.hessian.toMatrix.IsSymm) (hS : S.Covers P)
    (hs : s.Coherent P) (hz : S.Solves P s.value s.active (attempt S P s).solution)
    (hfull : (attempt S P s).limit.index = none) : (attempt S P s).advanced.Settled P := by
  have hheld : ∀ e, ((attempt S P s).advanced.active.status.get e).IsActive →
      (((P.valuesAt (attempt S P s).advanced.point).get e : ℝ) : EReal) =
        ((attempt S P s).advanced.active.status.get e).boundOn (P.lower.get e)
          (P.upper.get e) := by
    intro e hactive
    rw [get_status_of_full_step hfull] at hactive ⊢
    rw [Status.boundOn_followSign, get_value_of_full_step hfull hs]
    exact hs.full_step_of_isActive hP hS hz ((hs.admits e).isActive_of_followSign hactive)
  refine ⟨fun i => ?_, fun e => ?_, hheld⟩
  · exact Problem.balance_full_step hH hS hz (fun _ => (hs.admits _).multiplier_eq_zero)
      (get_point_of_full_step hfull) (get_multiplier_of_full_step hfull) i
  · have hfits := hs.admits_activeAfter hP S e
    have hbound := hheld e
    rcases hfits.eq_lower_or_inactive_or_upper with hstatus | hstatus | hstatus
    · rw [hstatus] at hfits hbound
      exact Or.inl ⟨hfits.1, hbound (by decide)⟩
    · exact Or.inr (Or.inl (hfits.multiplier_eq_zero hstatus))
    · rw [hstatus] at hfits hbound
      exact Or.inr (Or.inr ⟨hfits.1, hbound (by decide)⟩)

end State.Coherent

namespace State.Settled

theorem stationarity_eq_zero (hs : s.Settled P) : (P.residuals s.primalDual).stationarity = 0 := by
  have hle : (P.residuals s.primalDual).stationarity ≤ 0 :=
    stationarity_le_iff.mpr ⟨le_rfl, fun i => (abs_eq_zero.mpr (hs.balance i)).le⟩
  exact le_antisymm hle (stationarity_le_iff.mp le_rfl).1

theorem dualSign_eq_zero (hs : s.Settled P) : (P.residuals s.primalDual).dualSign = 0 := by
  have hle : (P.residuals s.primalDual).dualSign ≤ 0 :=
    dualSign_le_iff.mpr ⟨le_rfl, fun e => (hs.complementary e).signViolation_eq_zero.le⟩
  exact le_antisymm hle (dualSign_le_iff.mp le_rfl).1

theorem complementarity_eq_zero (hs : s.Settled P) :
    (P.residuals s.primalDual).complementarity = 0 := by
  have hle : (P.residuals s.primalDual).complementarity ≤ 0 :=
    complementarity_le_iff.mpr
      ⟨le_rfl, fun e => (hs.complementary e).complementarityGap_eq_zero.le⟩
  exact le_antisymm hle (complementarity_le_iff.mp le_rfl).1

theorem feasible (hs : s.Settled P) (hcoherent : s.Coherent P)
    (hvalue : P.InequalitiesHold s.value) : P.Feasible s.point := by
  intro e
  by_cases heq : P.IsEquality e
  · have hbounds := Problem.isEquality_iff.mp heq
    have hheld := hs.held e ((hcoherent.admits e).isActive hbounds)
    rw [Status.boundOn_of_eq hbounds] at hheld
    exact ⟨hheld.ge, (hheld.trans hbounds).le⟩
  · rw [← hcoherent.value]
    exact hvalue e heq

end State.Settled

theorem Problem.Feasible.primal_eq_zero {p : PrimalDual ℝ n m} (hx : P.Feasible p.point) :
    (P.residuals p).primal = 0 := by
  have hle : (P.residuals p).primal ≤ 0 :=
    primal_le_iff.mpr
      ⟨le_rfl, fun e => ⟨EReal.sub_nonpos.mpr (hx e).1, EReal.sub_nonpos.mpr (hx e).2⟩⟩
  exact le_antisymm hle (primal_le_iff.mp le_rfl).1

theorem State.Settled.isOptimal (hs : s.Settled P) (hx : P.Feasible s.point) :
    P.IsOptimal s.primalDual 0 :=
  ⟨hs.stationarity_eq_zero.le, (hx.primal_eq_zero (p := s.primalDual)).le, hs.dualSign_eq_zero.le,
    hs.complementarity_eq_zero.le⟩

theorem State.Settled.objective_le (hH : P.hessian.toMatrix.PosSemidef) (hs : s.Settled P) :
    ∀ y, P.Feasible y → P.objective s.point ≤ P.objective y := fun _ hy =>
  Problem.objective_le_of_balance hH hs.balance hs.complementary hy

theorem settled_of_success (hunit : 0 ≤ unit) (hP : P.Proper) (hH : P.hessian.toMatrix.IsSymm)
    (hS : S.Covers P) {budget : ℕ} (hsuccess : (solveFrom unit S P g budget).outcome = .success) :
    (solveFrom unit S P g budget).Settled P := by
  obtain ⟨before, hreached, hregular, hfull, hlast⟩ := success_of_solveFrom hsuccess
  rw [hlast]
  exact (hreached.coherent hP).settled hP hH hS (solves_of_not_isFatal hunit hS hregular) hfull

section HalfLine

open Problem

theorem get_valuesAt_halfLine (x : Vector ℝ 1) (j : Fin 1) :
    (halfLine.valuesAt x).get (j.natAdd 1) = x.get 0 := by
  rw [get_valuesAt_natAdd, constraints_halfLine, Matrix.one_mulVec, Subsingleton.elim j 0]

/-- The first step goes from the bound into the half line. -/
theorem index_halfLine (rule : ColumnOrder) :
    (attempt (halfLine.analyze rule) halfLine (State.start halfLine .origin)).limit.index =
      none := by
  let s := State.start halfLine .origin
  let S := halfLine.analyze rule
  have hcoherent : s.Coherent halfLine := State.coherent_start proper_halfLine _
  have hS := covers_analyze halfLine rule
  have hz := solves_of_not_isFatal le_rfl hS (not_isFatal_halfLine rule)
  have hrow := hcoherent.full_step_of_isActive proper_halfLine hS hz
    (isActive_status_halfLine_natAdd 0)
  rw [Status.boundOn_of_eq (equality_halfLine 0), (bounds_halfLine_natAdd 0).1] at hrow
  have hrow : s.value.get (Fin.natAdd 1 0) + (attempt S halfLine s).direction.value.get
      (Fin.natAdd 1 0) = 1 := EReal.coe_eq_one.mp hrow
  have hstart : s.value.get (Fin.natAdd 1 0) = 0 :=
    (get_valuesAt_halfLine _ 0).trans (get_ofFn _ _)
  have hequal : (attempt S halfLine s).direction.value.get (Fin.natAdd 1 0) =
      (attempt S halfLine s).direction.value.get (Fin.castAdd 1 0) :=
    (get_valuesAt_halfLine _ 0).trans (get_valuesAt_castAdd halfLine _ 0).symm
  have hpositive : 0 < (attempt S halfLine s).direction.value.get (Fin.castAdd 1 0) := by
    rw [← hequal]
    linarith
  refine Option.eq_none_iff_forall_ne_some.mpr fun e he => ?_
  obtain ⟨c, hproposes, -, -⟩ := State.Coherent.proposes_of_index proper_halfLine he
  revert hproposes
  refine Fin.addCases (fun i hproposes => ?_) (fun j hproposes => ?_) e
  · rw [get_status_halfLine_castAdd, Subsingleton.elim i 0] at hproposes
    cases hproposes with
    | upperBound hub =>
      exact absurd (hub.symm.trans (bounds_halfLine_castAdd 0).2) (EReal.coe_ne_top _)
    | lowerBound hlb hd => exact absurd hpositive hd.not_gt
  · exact hproposes.bounds_ne (hcoherent.admits _) (equality_halfLine j)

theorem outcome_halfLine (rule : ColumnOrder) :
    (solveFrom 0 (halfLine.analyze rule) halfLine .origin 1).outcome = .success := by
  change (iterate 0 (halfLine.analyze rule) halfLine (State.start halfLine .origin)).outcome = _
  rw [iterate_of_not_isFatal (not_isFatal_halfLine rule)]
  change (if (attempt (halfLine.analyze rule) halfLine
    (State.start halfLine .origin)).limit.index.isNone then Outcome.success else _) = _
  rw [index_halfLine rule]
  rfl

end HalfLine

/-- Success is sound: the conditions of optimality hold exactly, and a point that was reached from
within the inequalities is feasible and, for a convex objective, a minimiser. -/
theorem optimal_of_success (hunit : 0 ≤ unit) (hP : P.Proper) (hH : P.hessian.toMatrix.IsSymm)
    (hS : S.Covers P) {budget : ℕ} (hsuccess : (solveFrom unit S P g budget).outcome = .success) :
    let s := solveFrom unit S P g budget
    ((P.residuals s.primalDual).stationarity = 0 ∧ (P.residuals s.primalDual).dualSign = 0 ∧
      (P.residuals s.primalDual).complementarity = 0 ∧
      ∀ e, (s.active.status.get e).IsActive → (((P.valuesAt s.point).get e : ℝ) : EReal) =
        (s.active.status.get e).boundOn (P.lower.get e) (P.upper.get e)) ∧
    (P.InequalitiesHold (P.valuesAt g.point) →
      (P.residuals s.primalDual).primal = 0 ∧ P.IsOptimal s.primalDual 0 ∧ P.Feasible s.point ∧
        (P.hessian.toMatrix.PosSemidef →
          ∀ y, P.Feasible y → P.objective s.point ≤ P.objective y)) := by
  intro s
  have hsettled : s.Settled P := settled_of_success hunit hP hH hS hsuccess
  refine ⟨⟨hsettled.stationarity_eq_zero, hsettled.dualSign_eq_zero,
    hsettled.complementarity_eq_zero, hsettled.held⟩, fun hg => ?_⟩
  have hs : Reached unit S P g s := reached_solveFrom unit S P g budget
  have hfeasible : P.Feasible s.point :=
    hsettled.feasible (hs.coherent hP) (hs.inequalitiesHold hunit hP hS hg)
  exact ⟨hfeasible.primal_eq_zero (p := s.primalDual), hsettled.isOptimal hfeasible, hfeasible,
    fun hpos => hsettled.objective_le hpos⟩

theorem optimal_of_success_halfLine :
    let S := Problem.halfLine.analyze .natural
    let s := solveFrom 0 S Problem.halfLine .origin 1
    Problem.halfLine.Proper ∧ Problem.halfLine.hessian.toMatrix.IsSymm ∧
      S.Covers Problem.halfLine ∧ s.outcome = .success ∧
      Problem.halfLine.IsOptimal s.primalDual 0 ∧
      ∀ y, Problem.halfLine.Feasible y →
        Problem.halfLine.objective s.point ≤ Problem.halfLine.objective y := by
  intro S s
  have hS := covers_analyze Problem.halfLine .natural
  have hsymm : Problem.halfLine.hessian.toMatrix.IsSymm := by
    rw [hessian_halfLine]
    exact Matrix.isSymm_one
  have hpos : Problem.halfLine.hessian.toMatrix.PosSemidef := by
    rw [hessian_halfLine]
    exact Matrix.PosSemidef.one
  have hsuccess := outcome_halfLine .natural
  have hoptimal := (optimal_of_success le_rfl Problem.proper_halfLine hsymm hS hsuccess).2
    Problem.inequalitiesHold_halfLine
  exact ⟨Problem.proper_halfLine, hsymm, hS, hsuccess, hoptimal.2.1, hoptimal.2.2.2 hpos⟩

end QuadraticProgram
