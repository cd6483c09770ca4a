import QuadraticProgram.Proofs.Optimality
import QuadraticProgram.Proofs.Run.Feasibility

/-! # Held inequalities on their bounds

Within the inequalities a free entry is only taken into the active set when its value reaches a
bound, and a held inequality on its bound has no reason to move. So held inequalities that start on
their bounds stay there, and one iteration changes whether the entry in its way is held, and nothing
else. From a feasible point the equalities stay on their bounds as well, and no held entry moves.
-/
namespace QuadraticProgram

variable {n m : ℕ} {unit : ℝ} {S : Analysis n m} {P : Problem ℝ EReal n m}
variable {g : PrimalDual ℝ n m} {s : State ℝ n m}

def State.HeldOnBounds (P : Problem ℝ EReal n m) (s : State ℝ n m) : Prop :=
  ∀ e, ¬ P.IsEquality e → (s.active.status.get e).IsActive →
    ((s.value.get e : ℝ) : EReal) =
      (s.active.status.get e).boundOn (P.lower.get e) (P.upper.get e)

/-- Without multipliers only equalities start held. -/
theorem State.heldOnBounds_start (hzero : ∀ e, g.multiplier.get e = 0) :
    (State.start P g).HeldOnBounds P := by
  intro e hne hactive
  exact absurd (get_status_start_of_multiplier_eq_zero
    (fun heq => hne (Problem.isEquality_iff.mpr heq)) (hzero e)) hactive

namespace State.Coherent

section Status

theorem not_isEquality_of_index (hP : P.Proper) (hs : s.Coherent P) {e : Fin (n + m)}
    (he : (attempt S P s).limit.index = some e) : ¬ P.IsEquality e := by
  obtain ⟨c, hproposes, -⟩ := proposes_of_index hP he
  exact fun heq => hproposes.bounds_ne (hs.admits e) (Problem.isEquality_iff.mp heq)

theorem get_status_advanced (S : Analysis n m) (s : State ℝ n m) {e : Fin (n + m)}
    (hne : ¬ P.IsEquality e) :
    (attempt S P s).advanced.active.status.get e =
      if (attempt S P s).limit.index = some e then
        Status.afterBlocking (attempt S P s).limit.kind
      else s.active.status.get e := by
  rw [active_advanced, Problem.get_status_activeAfter,
    Status.followSign_of_ne fun heq => hne (Problem.isEquality_iff.mpr heq)]

/-- The entry that limits a step is released when it was held, and held when it was free. -/
theorem isActive_advanced_of_index (hP : P.Proper) (hs : s.Coherent P) {e : Fin (n + m)}
    (he : (attempt S P s).limit.index = some e) :
    ((attempt S P s).advanced.active.status.get e).IsActive ↔
      ¬ (s.active.status.get e).IsActive := by
  obtain ⟨c, hproposes, -, hkind⟩ := proposes_of_index hP he
  rw [get_status_advanced S s (hs.not_isEquality_of_index hP he), if_pos he, hkind]
  revert hproposes
  generalize s.active.status.get e = status
  intro hproposes
  cases hproposes <;> simp [Status.afterBlocking]

theorem isActive_advanced_of_ne_index (hP : P.Proper) (hs : s.Coherent P) {e : Fin (n + m)}
    (he : (attempt S P s).limit.index ≠ some e) :
    ((attempt S P s).advanced.active.status.get e).IsActive ↔
      (s.active.status.get e).IsActive := by
  by_cases heq : P.IsEquality e
  · have hbounds := Problem.isEquality_iff.mp heq
    exact iff_of_true ((hs.admits_activeAfter hP S e).isActive hbounds)
      ((hs.admits e).isActive hbounds)
  · rw [get_status_advanced S s heq, if_neg he]

end Status

section Solved

variable (hP : P.Proper) (hs : s.Coherent P) (hS : S.Covers P)
  (hz : S.Solves P s.value s.active (attempt S P s).solution)
include hP hs hS hz

theorem direction_eq_zero_of_heldOnBounds (hheld : s.HeldOnBounds P) {e : Fin (n + m)}
    (hne : ¬ P.IsEquality e) (he : (s.active.status.get e).IsActive) :
    (attempt S P s).direction.value.get e = 0 := by
  have hfull := hs.full_step_of_isActive hP hS hz he
  rw [← hheld e hne he] at hfull
  have hfull := EReal.coe_injective hfull
  linarith

theorem heldOnBounds_advanced (hx : P.InequalitiesHold s.value) (hheld : s.HeldOnBounds P) :
    (attempt S P s).advanced.HeldOnBounds P := by
  intro e hne hactive
  rw [get_status_advanced S s hne] at hactive ⊢
  rw [hs.get_value_advanced hP hx.variables S e]
  by_cases hindex : (attempt S P s).limit.index = some e
  · obtain ⟨c, hproposes, hlength, hkind⟩ := proposes_of_index hP hindex
    rw [if_pos hindex, hkind] at hactive ⊢
    rw [hlength]
    cases hck : c.kind with
    | upperBound => exact hproposes.value_eq_upper hck (hx e hne).2
    | lowerBound => exact hproposes.value_eq_lower hck (hx e hne).1
    | signChange =>
      rw [hck] at hactive
      exact absurd rfl hactive
  · rw [if_neg hindex] at hactive ⊢
    rw [hs.direction_eq_zero_of_heldOnBounds hP hS hz hheld hne hactive, mul_zero, add_zero]
    exact hheld e hne hactive

end Solved

end State.Coherent

/-- A coherent state within the inequalities, with the held ones on their bounds. -/
structure State.Anchored (P : Problem ℝ EReal n m) (s : State ℝ n m) : Prop where
  coherent : s.Coherent P
  inequalities : P.InequalitiesHold s.value
  heldOnBounds : s.HeldOnBounds P

theorem State.Anchored.iterate (hunit : 0 ≤ unit) (hP : P.Proper) (hS : S.Covers P)
    (hs : s.Anchored P) : (iterate unit S P s).Anchored P := by
  obtain ⟨hinequalities, hheld⟩ : P.InequalitiesHold (QuadraticProgram.iterate unit S P s).value ∧
      (QuadraticProgram.iterate unit S P s).HeldOnBounds P := by
    refine iterate_cases (motive := fun t => P.InequalitiesHold t.value ∧ t.HeldOnBounds P)
      (fun _ _ _ _ => ⟨hs.inequalities, hs.heldOnBounds⟩) fun hregular => ?_
    have hz := solves_of_not_isFatal hunit hS hregular
    exact ⟨hs.coherent.inequalitiesHold_advanced hP hS hz hs.inequalities,
      hs.coherent.heldOnBounds_advanced hP hS hz hs.inequalities hs.heldOnBounds⟩
  exact ⟨hs.coherent.iterate hP unit S, hinequalities, hheld⟩

theorem Reached.anchored (hunit : 0 ≤ unit) (hP : P.Proper) (hS : S.Covers P)
    (hg : P.InequalitiesHold (P.valuesAt g.point)) (hheld : (State.start P g).HeldOnBounds P)
    (hs : Reached unit S P g s) : s.Anchored P :=
  hs.of_preserved ⟨State.coherent_start hP g, hg, hheld⟩ fun _ ht => ht.iterate hunit hP hS

/-- An anchored state in which the equalities hold as well. -/
structure State.Seated (P : Problem ℝ EReal n m) (s : State ℝ n m) : Prop where
  anchored : s.Anchored P
  equalities : ∀ e, P.IsEquality e → ((s.value.get e : ℝ) : EReal) = P.lower.get e

namespace State.Seated

/-- Every held entry lies on its bound. -/
theorem onBound (hs : s.Seated P) {e : Fin (n + m)} (he : (s.active.status.get e).IsActive) :
    ((s.value.get e : ℝ) : EReal) =
      (s.active.status.get e).boundOn (P.lower.get e) (P.upper.get e) := by
  by_cases heq : P.IsEquality e
  · rw [hs.equalities e heq, Status.boundOn_of_eq (Problem.isEquality_iff.mp heq)]
  · exact hs.anchored.heldOnBounds e heq he

theorem direction_eq_zero (hP : P.Proper) (hS : S.Covers P) (hs : s.Seated P)
    (hz : S.Solves P s.value s.active (attempt S P s).solution) {e : Fin (n + m)}
    (he : (s.active.status.get e).IsActive) : (attempt S P s).direction.value.get e = 0 := by
  have hfull := hs.anchored.coherent.full_step_of_isActive hP hS hz he
  rw [← hs.onBound he] at hfull
  have hfull := EReal.coe_injective hfull
  linarith

theorem iterate (hunit : 0 ≤ unit) (hP : P.Proper) (hS : S.Covers P) (hs : s.Seated P) :
    (iterate unit S P s).Seated P := by
  refine ⟨hs.anchored.iterate hunit hP hS, fun e heq => ?_⟩
  refine iterate_cases (motive := fun t => ((t.value.get e : ℝ) : EReal) = P.lower.get e)
    (fun _ _ _ _ => hs.equalities e heq) fun hregular => ?_
  obtain ⟨b, hlower, -, hgap⟩ := hs.anchored.coherent.gap_advanced hP hS
    (solves_of_not_isFatal hunit hS hregular) hs.anchored.inequalities heq
  have hvalue := hs.equalities e heq
  rw [hlower] at hvalue ⊢
  rw [EReal.coe_injective hvalue, sub_self, mul_zero, sub_eq_zero] at hgap
  rw [hgap]

end State.Seated

theorem Reached.seated (hunit : 0 ≤ unit) (hP : P.Proper) (hS : S.Covers P)
    (hg : P.Feasible g.point) (hheld : (State.start P g).HeldOnBounds P)
    (hs : Reached unit S P g s) : s.Seated P := by
  have hstart : (State.start P g).Seated P := by
    refine ⟨⟨State.coherent_start hP g, fun e _ => hg e, hheld⟩, fun e heq => ?_⟩
    have hbounds := Problem.isEquality_iff.mp heq
    exact le_antisymm (hbounds ▸ (hg e).2) (hg e).1
  exact hs.of_preserved hstart fun _ ht => ht.iterate hunit hP hS

end QuadraticProgram
