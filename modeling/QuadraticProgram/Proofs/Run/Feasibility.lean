import Mathlib.Algebra.Order.Star.Real
import QuadraticProgram.Proofs.Kernel
import QuadraticProgram.Proofs.Run.Coherence

/-! # Feasibility along a run

As long as the inequalities hold, putting a variable that reached a bound exactly onto it moves
nothing: the values after a step lie on the segment from the old values to those of the full step.
Held entries end that segment on their bounds and free entries stop before theirs, so inequalities
that hold at the guess hold at every state, and every equality closes its gap by the same factor.
-/
namespace QuadraticProgram

variable {n m : ℕ} {unit : ℝ} {S : Analysis n m} {P : Problem ℝ EReal n m}
variable {g : PrimalDual ℝ n m} {s : State ℝ n m}

namespace Problem

def InequalitiesHold (P : Problem ℝ EReal n m) (value : Vector ℝ (n + m)) : Prop :=
  ∀ e, ¬ P.IsEquality e → P.lower.get e ≤ value.get e ∧ value.get e ≤ P.upper.get e

def VariablesHold (P : Problem ℝ EReal n m) (value : Vector ℝ (n + m)) : Prop :=
  ∀ i : Fin n, ¬ P.IsEquality (i.castAdd m) →
    P.lower.get (i.castAdd m) ≤ value.get (i.castAdd m) ∧
      value.get (i.castAdd m) ≤ P.upper.get (i.castAdd m)

theorem InequalitiesHold.variables {P : Problem ℝ EReal n m} {value : Vector ℝ (n + m)}
    (h : P.InequalitiesHold value) : P.VariablesHold value := fun i => h (i.castAdd m)

theorem lower_le_upper (P : Problem ℝ EReal n m) (e : Fin (n + m)) :
    P.lower.get e ≤ P.upper.get e := by
  have hordered : decide (P.upper.get e < P.lower.get e) = false := P.ordered e
  exact not_lt.mp (of_decide_eq_false hordered)

theorem isEquality_iff {P : Problem ℝ EReal n m} {e : Fin (n + m)} :
    P.IsEquality e ↔ P.lower.get e = P.upper.get e :=
  same_ereal _ _

end Problem

theorem within_segment {lb ub : EReal} {v w t : ℝ} (ht0 : 0 ≤ t) (ht1 : t ≤ 1)
    (hv : lb ≤ v ∧ v ≤ ub) (hw : lb ≤ w ∧ w ≤ ub) :
    lb ≤ ((v + t * (w - v) : ℝ) : EReal) ∧ ((v + t * (w - v) : ℝ) : EReal) ≤ ub := by
  rcases le_total v w with h | h
  · have hlow : v ≤ v + t * (w - v) := by nlinarith
    have hup : v + t * (w - v) ≤ w := by nlinarith
    exact ⟨hv.1.trans (EReal.coe_le_coe_iff.mpr hlow), (EReal.coe_le_coe_iff.mpr hup).trans hw.2⟩
  · have hlow : w ≤ v + t * (w - v) := by nlinarith
    have hup : v + t * (w - v) ≤ v := by nlinarith
    exact ⟨hw.1.trans (EReal.coe_le_coe_iff.mpr hlow), (EReal.coe_le_coe_iff.mpr hup).trans hv.2⟩

namespace State.Coherent

/-- A variable that limits the step lands on its bound by the step itself. -/
theorem get_point_advanced (hP : P.Proper) (hs : s.Coherent P) (hx : P.VariablesHold s.value)
    (S : Analysis n m) (i : Fin n) :
    (attempt S P s).advanced.point.get i =
      s.point.get i +
        (attempt S P s).limit.length * (onVariables (attempt S P s).solution).get i := by
  rw [point_advanced, Problem.pointAfter, get_ofFn]
  by_cases hindex : (attempt S P s).limit.index = some (i.castAdd m)
  · obtain ⟨c, hproposes, hlength, hkind⟩ := proposes_of_index hP hindex
    have hwithin : P.lower.get (i.castAdd m) ≤ s.value.get (i.castAdd m) ∧
        s.value.get (i.castAdd m) ≤ P.upper.get (i.castAdd m) :=
      hx _ fun heq => hproposes.bounds_ne (hs.admits _) (Problem.isEquality_iff.mp heq)
    rw [if_pos hindex, hkind, hlength, ← onVariables_direction, State.point, get_onVariables,
      get_onVariables]
    cases hck : c.kind with
    | upperBound =>
      have hvalue := hproposes.value_eq_upper hck hwithin.2
      exact (congrArg EReal.toReal hvalue).symm
    | lowerBound =>
      have hvalue := hproposes.value_eq_lower hck hwithin.1
      exact (congrArg EReal.toReal hvalue).symm
    | signChange => rfl
  · rw [if_neg hindex]

theorem get_value_advanced (hP : P.Proper) (hs : s.Coherent P) (hx : P.VariablesHold s.value)
    (S : Analysis n m) (e : Fin (n + m)) :
    (attempt S P s).advanced.value.get e =
      s.value.get e + (attempt S P s).limit.length * (attempt S P s).direction.value.get e := by
  have hmove := P.get_valuesAt_add_smul _ (hs.get_point_advanced hP hx S) e
  rw [← hs.value, ← (hs.advanced hP S).value] at hmove
  exact hmove

section Solved

variable (hP : P.Proper) (hs : s.Coherent P) (hS : S.Covers P)
  (hz : S.Solves P s.value s.active (attempt S P s).solution)
include hP hs hS hz

theorem full_step_of_isActive {e : Fin (n + m)} (he : (s.active.status.get e).IsActive) :
    ((s.value.get e + (attempt S P s).direction.value.get e : ℝ) : EReal) =
      (s.active.status.get e).boundOn (P.lower.get e) (P.upper.get e) := by
  have hheld := Problem.value_add_direction hS hz he
  have hcoe := (hs.admits e).coe_heldAt (hP e).1 (hP e).2 he
  rw [← hcoe, ← hheld]
  rfl

/-- An entry within its bounds stays within them, wherever the rows started. -/
theorem within_advanced (hx : P.VariablesHold s.value) {e : Fin (n + m)}
    (hwithin : P.lower.get e ≤ s.value.get e ∧ s.value.get e ≤ P.upper.get e) :
    P.lower.get e ≤ (attempt S P s).advanced.value.get e ∧
      (attempt S P s).advanced.value.get e ≤ P.upper.get e := by
  have ht0 := hs.length_nonneg hP S
  have ht1 : (attempt S P s).limit.length ≤ 1 := length_stepLimit_le_one _
  rw [hs.get_value_advanced hP hx S e]
  by_cases he : s.active.status.get e = .inactive
  · have hshort : ∀ c, candidate? (P.lower.get e) (P.upper.get e) (s.value.get e)
        ((attempt S P s).direction.value.get e) .inactive (s.active.multiplier.get e)
        ((attempt S P s).direction.multiplier.get e) = some c →
        (attempt S P s).limit.length ≤ c.length := by
      intro c hc
      rw [← he] at hc
      exact length_stepLimit_le ((get_candidates _ _ _ _ _ e).trans hc)
    exact within_of_inactive (hP e).1 (hP e).2 hwithin ht0 ht1 hshort
  · -- the end of the segment is a bound, which lies within the bounds because they are ordered
    have hbound := hs.full_step_of_isActive hP hS hz he
    let full : ℝ := s.value.get e + (attempt S P s).direction.value.get e
    have hend : P.lower.get e ≤ full ∧ full ≤ P.upper.get e := by
      rw [hbound]
      cases s.active.status.get e with
      | upper => exact ⟨P.lower_le_upper e, le_rfl⟩
      | _ => exact ⟨le_rfl, P.lower_le_upper e⟩
    have hsegment := within_segment ht0 ht1 hwithin hend
    rwa [add_sub_cancel_left] at hsegment

theorem inequalitiesHold_advanced (hx : P.InequalitiesHold s.value) :
    P.InequalitiesHold (attempt S P s).advanced.value := fun e hne =>
  hs.within_advanced hP hS hz hx.variables (hx e hne)

theorem variablesHold_advanced (hx : P.VariablesHold s.value) :
    P.VariablesHold (attempt S P s).advanced.value := fun i hne =>
  hs.within_advanced hP hS hz hx (hx i hne)

/-- The gap of an equality shrinks by the rest of the step. -/
theorem gap_advanced (hx : P.InequalitiesHold s.value) {e : Fin (n + m)} (heq : P.IsEquality e) :
    ∃ b : ℝ, P.lower.get e = b ∧ P.upper.get e = b ∧
      (attempt S P s).advanced.value.get e - b =
        (1 - (attempt S P s).limit.length) * (s.value.get e - b) := by
  have hbounds := Problem.isEquality_iff.mp heq
  have hactive := (hs.admits e).isActive hbounds
  have hbound := hs.full_step_of_isActive hP hS hz hactive
  rw [Status.boundOn_of_eq hbounds] at hbound
  refine ⟨_, hbound.symm, hbounds ▸ hbound.symm, ?_⟩
  rw [hs.get_value_advanced hP hx.variables S e]
  ring

end Solved

end State.Coherent

section HalfLine

open Problem

theorem Problem.inequalitiesHold_halfLine :
    halfLine.InequalitiesHold (halfLine.valuesAt PrimalDual.origin.point) := by
  intro e
  refine Fin.addCases (fun i _ => ?_) (fun j hne => ?_) e
  · rw [(bounds_halfLine_castAdd i).1, (bounds_halfLine_castAdd i).2, get_valuesAt_castAdd,
      PrimalDual.origin, get_ofFn]
    exact ⟨le_rfl, le_top⟩
  · exact absurd (isEquality_iff.mpr (equality_halfLine j)) hne

theorem Problem.lower_ne_upper_halfLine_castAdd (i : Fin 1) :
    halfLine.lower.get (i.castAdd 1) ≠ halfLine.upper.get (i.castAdd 1) := by
  rw [(bounds_halfLine_castAdd i).1, (bounds_halfLine_castAdd i).2]
  exact EReal.zero_ne_top

theorem get_status_halfLine_castAdd (i : Fin 1) :
    (State.start halfLine .origin).active.status.get (i.castAdd 1) = .inactive :=
  State.get_status_start_of_multiplier_eq_zero (lower_ne_upper_halfLine_castAdd i) (get_ofFn _ _)

theorem isActive_status_halfLine_natAdd (j : Fin 1) :
    ((State.start halfLine .origin).active.status.get (j.natAdd 1)).IsActive :=
  ((State.coherent_start proper_halfLine .origin).admits _).isActive (equality_halfLine j)

theorem hessian_halfLine : halfLine.hessian.toMatrix = 1 := by
  ext i j
  rw [Mat.toMatrix_apply, Subsingleton.elim i j, Matrix.one_apply_eq]
  exact Mat.entry_ofFn _ _ _

theorem constraints_halfLine : halfLine.constraints.toMatrix = 1 := by
  ext i j
  rw [Mat.toMatrix_apply, Subsingleton.elim i j, Matrix.one_apply_eq]
  exact Mat.entry_ofFn _ _ _

theorem Problem.posDef_hessian_halfLine : halfLine.hessian.toMatrix.PosDef := by
  rw [hessian_halfLine]
  exact Matrix.PosDef.one

/-- The normal of the row alone is independent. -/
theorem Problem.linearIndepOn_normal_halfLine {held : Set (Fin (1 + 1))}
    (hvariable : Fin.castAdd 1 0 ∉ held) : LinearIndepOn ℝ halfLine.normal held := by
  have hnormal : halfLine.normal (Fin.natAdd 1 0) ≠ 0 := by
    refine ne_of_eq_of_ne (halfLine.normal_natAdd 0) fun hrow => one_ne_zero (α := ℝ) ?_
    exact (Mat.entry_ofFn _ 0 0).symm.trans (congrFun hrow 0)
  refine (LinearIndepOn.singleton hnormal).mono fun e => ?_
  refine Fin.addCases (fun i hi => ?_) (fun j _ => ?_) e
  · obtain rfl : i = 0 := Subsingleton.elim i 0
    exact absurd hi hvariable
  · exact Set.mem_singleton_iff.mpr (congrArg (Fin.natAdd 1) (Subsingleton.elim j 0))

/-- Without a multiplier the variable starts free, and only the row is held. -/
theorem linearIndepOn_halfLine {g : PrimalDual ℝ 1 1}
    (hzero : g.multiplier.get (Fin.castAdd 1 0) = 0) :
    LinearIndepOn ℝ halfLine.normal
      {e | ((State.start halfLine g).active.status.get e).IsActive} :=
  linearIndepOn_normal_halfLine fun hheld => hheld
    (State.get_status_start_of_multiplier_eq_zero (lower_ne_upper_halfLine_castAdd 0) hzero)

theorem not_isFatal_halfLine (rule : ColumnOrder) :
    ¬ (attempt (halfLine.analyze rule) halfLine (State.start halfLine .origin)).IsFatal 0 := by
  rw [(State.coherent_start proper_halfLine .origin).isFatal_iff proper_halfLine]
  exact not_isSingular_attempt_of_linearIndependent posDef_hessian_halfLine
    (covers_analyze halfLine rule) (linearIndepOn_halfLine (get_ofFn _ _))

end HalfLine

section AboveOne

open Problem

theorem Problem.hessian_aboveOne : aboveOne.hessian.toMatrix = 1 := by
  ext i j
  rw [Mat.toMatrix_apply, Subsingleton.elim i j, Matrix.one_apply_eq]
  exact Mat.entry_ofFn _ _ _

theorem Problem.posDef_hessian_aboveOne : aboveOne.hessian.toMatrix.PosDef := by
  rw [hessian_aboveOne]
  exact Matrix.PosDef.one

theorem Problem.tilt_aboveOne (d : Fin 1 → ℝ) (δ : Fin (1 + 0) → ℝ) (i : Fin 1) :
    aboveOne.tilt d δ i = d i + δ (i.castAdd 0) := by
  rw [tilt_apply, hessian_aboveOne, Matrix.one_mulVec, toMatrix_vecMul_apply, Fin.sum_univ_zero,
    add_zero]

theorem Problem.balance_aboveOne (x : Vector ℝ 1) (multiplier : Vector ℝ (1 + 0)) (i : Fin 1) :
    aboveOne.balance x multiplier i = x.get i + multiplier.get (i.castAdd 0) := by
  have hlinear : aboveOne.linear.get i = 0 := get_ofFn _ i
  rw [balance_eq_tilt, tilt_aboveOne, hlinear, add_zero]

theorem Problem.linearIndepOn_normal_aboveOne (held : Set (Fin (1 + 0))) :
    LinearIndepOn ℝ aboveOne.normal held := by
  have hnormal : aboveOne.normal 0 ≠ 0 := by
    refine ne_of_eq_of_ne (aboveOne.normal_castAdd 0) fun hzero => ?_
    exact one_ne_zero ((Pi.single_eq_same 0 1).symm.trans (congrFun hzero 0))
  refine (LinearIndepOn.singleton hnormal).mono fun e _ => ?_
  exact Set.mem_singleton_iff.mpr (Subsingleton.elim (α := Fin 1) e 0)

theorem not_isSingular_aboveOne (rule : ColumnOrder) (s : State ℝ 1 0) :
    ¬ (attempt (aboveOne.analyze rule) aboveOne s).IsSingular 0 :=
  not_isSingular_attempt_of_linearIndependent posDef_hessian_aboveOne
    (covers_analyze aboveOne rule) (linearIndepOn_normal_aboveOne _)

theorem not_isFatal_aboveOne (rule : ColumnOrder) {s : State ℝ 1 0} (hs : s.Coherent aboveOne) :
    ¬ (attempt (aboveOne.analyze rule) aboveOne s).IsFatal 0 :=
  (hs.isFatal_iff proper_aboveOne).not.mpr (not_isSingular_aboveOne rule s)

theorem get_status_aboveOne {g : PrimalDual ℝ 1 0} (hzero : ∀ e, g.multiplier.get e = 0)
    (e : Fin (1 + 0)) : (State.start aboveOne g).active.status.get e = .inactive :=
  State.get_status_start_of_multiplier_eq_zero (lower_ne_upper_aboveOne e) (hzero e)

end AboveOne

namespace Reached

/-- What a step preserves of the values in coherent states holds of the values of all reached
states. -/
theorem of_preserved_of_advanced (hunit : 0 ≤ unit) (hP : P.Proper) (hS : S.Covers P)
    {motive : Vector ℝ (n + m) → Prop} (hstart : motive (P.valuesAt g.point))
    (hadvanced : ∀ t : State ℝ n m, t.Coherent P →
      S.Solves P t.value t.active (attempt S P t).solution → motive t.value →
      motive (attempt S P t).advanced.value)
    (hs : Reached unit S P g s) : motive s.value := by
  refine hs.of_preserved_of_coherent hP (motive := fun t => motive t.value) hstart ?_
  intro t hcoherent hvalue
  exact iterate_cases (motive := fun r => motive r.value) (fun _ _ _ _ => hvalue)
    fun hregular => hadvanced t hcoherent (solves_of_not_isFatal hunit hS hregular) hvalue

theorem inequalitiesHold (hunit : 0 ≤ unit) (hP : P.Proper) (hS : S.Covers P)
    (hg : P.InequalitiesHold (P.valuesAt g.point)) (hs : Reached unit S P g s) :
    P.InequalitiesHold s.value :=
  hs.of_preserved_of_advanced hunit hP hS hg fun _ ht hz hx =>
    ht.inequalitiesHold_advanced hP hS hz hx

theorem variablesHold (hunit : 0 ≤ unit) (hP : P.Proper) (hS : S.Covers P)
    (hg : P.VariablesHold (P.valuesAt g.point)) (hs : Reached unit S P g s) :
    P.VariablesHold s.value :=
  hs.of_preserved_of_advanced hunit hP hS hg fun _ ht hz hx =>
    ht.variablesHold_advanced hP hS hz hx

/-- The values are those of the point and satisfy the inequalities, at every state and at the end of
a run with any budget, and a step takes an equality towards its bound by its length. -/
theorem feasibility_kept (hunit : 0 ≤ unit) (hP : P.Proper) (hS : S.Covers P)
    (hg : P.InequalitiesHold (P.valuesAt g.point)) :
    (∀ s, Reached unit S P g s → s.value = P.valuesAt s.point ∧ P.InequalitiesHold s.value) ∧
      (∀ budget, P.InequalitiesHold (P.valuesAt (solveFrom unit S P g budget).point)) ∧
      ∀ s, Reached unit S P g s → ¬ (attempt S P s).IsFatal unit → ∀ e, P.IsEquality e →
        ∃ b : ℝ, P.lower.get e = b ∧ P.upper.get e = b ∧
          (QuadraticProgram.iterate unit S P s).value.get e - b =
            (1 - (QuadraticProgram.iterate unit S P s).length) * (s.value.get e - b) := by
  refine ⟨fun s hs => ⟨(hs.coherent hP).value, hs.inequalitiesHold hunit hP hS hg⟩,
    fun budget => ?_, fun s hs hregular e he => ?_⟩
  · have hs := reached_solveFrom unit S P g budget
    rw [← (hs.coherent hP).value]
    exact hs.inequalitiesHold hunit hP hS hg
  · have hz := solves_of_not_isFatal hunit hS hregular
    rw [iterate_of_not_isFatal hregular]
    exact (hs.coherent hP).gap_advanced hP hS hz (hs.inequalitiesHold hunit hP hS hg) he

theorem feasibility_kept_halfLine :
    let S := Problem.halfLine.analyze .minimumDegree
    let s := State.start Problem.halfLine .origin
    let t := QuadraticProgram.iterate 0 S Problem.halfLine s
    Problem.halfLine.Proper ∧ S.Covers Problem.halfLine ∧
      Problem.halfLine.InequalitiesHold (Problem.halfLine.valuesAt PrimalDual.origin.point) ∧
      ¬ (attempt S Problem.halfLine s).IsFatal 0 ∧
      Problem.halfLine.InequalitiesHold
        (Problem.halfLine.valuesAt (solveFrom 0 S Problem.halfLine .origin 3).point) ∧
      ∃ b : ℝ, (b : EReal) = 1 ∧ t.value.get (Fin.natAdd 1 0) - b =
        (1 - t.length) * (s.value.get (Fin.natAdd 1 0) - b) := by
  intro S s t
  have hS := covers_analyze Problem.halfLine .minimumDegree
  have hkept := feasibility_kept le_rfl Problem.proper_halfLine hS
    Problem.inequalitiesHold_halfLine
  obtain ⟨b, hlower, -, hgap⟩ := hkept.2.2 s .start (not_isFatal_halfLine _) (Fin.natAdd 1 0)
    (Problem.isEquality_iff.mpr (Problem.equality_halfLine 0))
  have hb : (b : EReal) = 1 := hlower.symm.trans (Problem.bounds_halfLine_natAdd 0).1
  exact ⟨Problem.proper_halfLine, hS, Problem.inequalitiesHold_halfLine, not_isFatal_halfLine _,
    hkept.2.1 3, b, hb, hgap⟩

end Reached

end QuadraticProgram
