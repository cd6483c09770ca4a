import QuadraticProgram.Proofs.Run.Anchored
import QuadraticProgram.Proofs.Run.Budget
import QuadraticProgram.Proofs.Run.Converged

/-! # Iterations after the end

An iteration does not ask whether the run is over. After a failure it finds the values and the
active set that it failed on, and fails again in the same way. After a full step the state is
balanced, with every held entry on its bound, and holds the same entries as before, so the system is
regular again and the next step goes nowhere. Only the count of the iterations goes on.
-/
namespace QuadraticProgram

/-- An attempt looks at the values and the active set only, and a failure changes neither. -/
theorem iterate_iterate_of_isFatal {α β : Type} [Scalar α] [Bound α β] {n m : ℕ} {unit : α}
    {S : Analysis n m} {P : Problem α β n m} {s : State α n m}
    (hfatal : (attempt S P s).IsFatal unit) :
    let t := iterate unit S P s
    iterate unit S P t = { t with iteration := t.iteration + 1 } := by
  intro t
  by_cases hsingular : (attempt S P s).IsSingular unit
  · have hfail : t = Attempt.fail s .singular _ _ := Attempt.next_of_isSingular hsingular s
    have hagain : (attempt S P t).IsSingular unit := by
      rw [hfail]
      exact hsingular
    rw [iterate, Attempt.next_of_isSingular hagain, hfail]
    rfl
  · obtain ⟨e, he⟩ := Option.ne_none_iff_exists'.mp (hfatal.resolve_left hsingular)
    have hfail : t = Attempt.fail s .invalidStep (some e) _ :=
      Attempt.next_of_invalid hsingular he s
    have hagain : ¬ (attempt S P t).IsSingular unit := by
      rw [hfail]
      exact hsingular
    have hinvalid : (attempt S P t).limit.invalid = some e := by
      rw [hfail]
      exact he
    rw [iterate, Attempt.next_of_invalid hagain hinvalid, hfail]
    rfl

variable {n m : ℕ} {unit : ℝ} {S : Analysis n m} {P : Problem ℝ EReal n m}
variable {g : PrimalDual ℝ n m} {s : State ℝ n m}

/-- A full step is followed by full steps of no effect. -/
theorem State.Coherent.iterate_advanced_of_full_step (hunit : 0 ≤ unit) (hP : P.Proper)
    (hH : P.hessian.toMatrix.IsSymm) (hS : S.Covers P) (hs : s.Coherent P)
    (hregular : ¬ (attempt S P s).IsFatal unit) (hfull : (attempt S P s).limit.index = none) :
    let t := (attempt S P s).advanced
    QuadraticProgram.iterate unit S P t = { t with iteration := t.iteration + 1 } := by
  intro t
  have ht : t.Coherent P := hs.advanced hP S
  have hsettled : t.Settled P := hs.settled hP hH hS (solves_of_not_isFatal hunit hS hregular) hfull
  -- equalities may have changed their side, and nothing else has changed its status
  have hsame : ∀ e, (s.active.status.get e).IsActive ↔ (t.active.status.get e).IsActive :=
    fun e => (hs.isActive_advanced_of_ne_index hP (hfull ▸ (Option.some_ne_none e).symm)).symm
  have hagain : ¬ (attempt S P t).IsSingular unit :=
    (isSingular_attempt_congr hsame).not.mp ((hs.isFatal_iff hP).not.mp hregular)
  have hdone : (attempt S P s).limit.index.isNone = true := Option.isNone_iff_eq_none.mpr hfull
  rw [ht.iterate_of_balanced hunit hP hH hS hagain hsettled.balance fun e he => ?_]
  · exact Eq.symm (Alike.eq ⟨rfl, rfl, rfl, kind_stepLimit_of_no_index hfull, rfl, hdone,
      if_pos hdone, fun _ => ⟨stepLimit_of_no_index hfull, hfull⟩⟩ Outcome.noConfusion)
  · rw [ht.value]
    exact hsettled.held e he

namespace Reached

theorem iterate_of_done (hunit : 0 ≤ unit) (hP : P.Proper) (hH : P.hessian.toMatrix.IsSymm)
    (hS : S.Covers P) (hs : Reached unit S P g s) (hdone : s.done = true) :
    QuadraticProgram.iterate unit S P s = { s with iteration := s.iteration + 1 } := by
  cases hs with
  | start => exact absurd hdone Bool.false_ne_true
  | @iterate s hs =>
    by_cases hfatal : (attempt S P s).IsFatal unit
    · exact iterate_iterate_of_isFatal hfatal
    · have hfull := (done_iterate_iff_ends.mp hdone).resolve_left hfatal
      rw [iterate_of_not_isFatal hfatal]
      exact (hs.coherent hP).iterate_advanced_of_full_step hunit hP hH hS hfatal hfull

theorem full_step_of_success (hs : Reached unit S P g s) (hdone : s.done = true)
    (hsuccess : s.outcome = .success) : s.length = 1 ∧ s.index = none := by
  cases hs with
  | start => exact absurd hdone Bool.false_ne_true
  | @iterate s hs =>
    by_cases hfatal : (attempt S P s).IsFatal unit
    · obtain ⟨outcome, index, length, hfails, hnext⟩ := iterate_of_isFatal hfatal
      rw [hnext] at hsuccess
      exact absurd hsuccess hfails.ne_success
    · have hfull := (done_iterate_iff_ends.mp hdone).resolve_left hfatal
      rw [iterate_of_not_isFatal hfatal]
      exact ⟨stepLimit_of_no_index hfull, hfull⟩

theorem iterate_iterate (hs : Reached unit S P g s) (k : ℕ) :
    Reached unit S P g ((QuadraticProgram.iterate unit S P)^[k] s) := by
  induction k with
  | zero => exact hs
  | succ k ih =>
    rw [Function.iterate_succ_apply']
    exact ih.iterate

/-- Finished states are absorbing: iterations change nothing in them but the count. After a success
the step that is kept is the full one. -/
theorem finished_absorbs (hunit : 0 ≤ unit) (hP : P.Proper) (hH : P.hessian.toMatrix.IsSymm)
    (hS : S.Covers P) (hs : Reached unit S P g s) (hdone : s.done = true) :
    (∀ k, (QuadraticProgram.iterate unit S P)^[k] s = { s with iteration := s.iteration + k }) ∧
      (s.outcome = .success → s.length = 1 ∧ s.index = none) := by
  refine ⟨fun k => ?_, hs.full_step_of_success hdone⟩
  induction k with
  | zero => rfl
  | succ k ih =>
    have hreached := hs.iterate_iterate k
    rw [ih] at hreached
    rw [Function.iterate_succ_apply', ih, hreached.iterate_of_done hunit hP hH hS hdone]
    rfl

theorem finished_absorbs_halfLine :
    let S := Problem.halfLine.analyze .natural
    let s := solveFrom 0 S Problem.halfLine .origin 1
    Problem.halfLine.Proper ∧ Problem.halfLine.hessian.toMatrix.IsSymm ∧
      S.Covers Problem.halfLine ∧ Reached 0 S Problem.halfLine .origin s ∧ s.done = true ∧
      s.outcome = .success ∧ s.length = 1 ∧
      (QuadraticProgram.iterate 0 S Problem.halfLine)^[5] s = { s with iteration := 6 } := by
  intro S s
  have hS := covers_analyze Problem.halfLine .natural
  have hs : Reached 0 S Problem.halfLine .origin s :=
    reached_solveFrom 0 S Problem.halfLine .origin 1
  have hsuccess : s.outcome = .success := outcome_halfLine .natural
  have hdone : s.done = true :=
    done_iterate_iff_ends.mpr (Or.inr (index_halfLine .natural))
  have hiteration : s.iteration = 1 := iteration_stateAfter 0 S Problem.halfLine .origin 1
  obtain ⟨hsame, hlast⟩ := finished_absorbs le_rfl Problem.proper_halfLine
    Problem.isSymm_hessian_halfLine hS hs hdone
  refine ⟨Problem.proper_halfLine, Problem.isSymm_hessian_halfLine, hS, hs, hdone, hsuccess,
    (hlast hsuccess).1, ?_⟩
  rw [hsame 5, hiteration]

end Reached

end QuadraticProgram
