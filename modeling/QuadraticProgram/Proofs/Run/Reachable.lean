import Mathlib.Tactic.Common
import QuadraticProgram.Iteration

/-! # The states of a run

One iteration either fails, and leaves the values, the active set and the objective alone, or takes
the step that its attempt worked out. What the first state has and every iteration preserves holds
of all states that a run can reach. A run that reports success ended with a full step.
-/
namespace QuadraticProgram

variable {α β : Type} [Scalar α] [Bound α β] {n m : ℕ}
variable {unit : α} {S : Analysis n m} {P : Problem α β n m} {g : PrimalDual α n m}
variable {s : State α n m} {a : Attempt α n m}

namespace Attempt

def IsFatal (unit : α) (a : Attempt α n m) : Prop := a.IsSingular unit ∨ a.limit.invalid ≠ none

def FailsWith (unit : α) (a : Attempt α n m) : Outcome → Prop
  | .singular => a.IsSingular unit
  | .invalidStep => a.limit.invalid ≠ none
  | .success => False
  | .unfinished => False

theorem FailsWith.ne_success {outcome : Outcome} (h : a.FailsWith unit outcome) :
    outcome ≠ .success := by
  rintro rfl
  exact h

theorem FailsWith.ne_unfinished {outcome : Outcome} (h : a.FailsWith unit outcome) :
    outcome ≠ .unfinished := by
  rintro rfl
  exact h

theorem next_of_not_isFatal (h : ¬ a.IsFatal unit) (s : State α n m) :
    a.next unit s = a.advanced := by
  rw [IsFatal, not_or, not_not] at h
  rw [next, if_neg h.1, h.2]

theorem next_of_isSingular (h : a.IsSingular unit) (s : State α n m) :
    a.next unit s = fail s .singular a.factorization.weakestColumn? a.limit.length :=
  if_pos h

theorem next_of_invalid (hregular : ¬ a.IsSingular unit) {e : Fin (n + m)}
    (he : a.limit.invalid = some e) (s : State α n m) :
    a.next unit s = fail s .invalidStep (some e)
      (((a.limit.candidates.get e).map Candidate.length).getD 0) := by
  rw [next, if_neg hregular, he]

theorem next_of_isFatal (h : a.IsFatal unit) (s : State α n m) :
    ∃ outcome index length, a.FailsWith unit outcome ∧
      a.next unit s = fail s outcome index length := by
  by_cases hsingular : a.IsSingular unit
  · exact ⟨.singular, _, _, hsingular, next_of_isSingular hsingular s⟩
  · have hinvalid : a.limit.invalid ≠ none := h.resolve_left hsingular
    obtain ⟨e, he⟩ := Option.ne_none_iff_exists'.mp hinvalid
    exact ⟨.invalidStep, some e, _, hinvalid, next_of_invalid hsingular he s⟩

end Attempt

theorem iterate_of_not_isFatal (h : ¬ (attempt S P s).IsFatal unit) :
    iterate unit S P s = (attempt S P s).advanced :=
  Attempt.next_of_not_isFatal h s

theorem iterate_of_isFatal (h : (attempt S P s).IsFatal unit) :
    ∃ outcome index length, (attempt S P s).FailsWith unit outcome ∧
      iterate unit S P s = Attempt.fail s outcome index length :=
  Attempt.next_of_isFatal h s

/-- An iteration either fails or takes its step. -/
theorem iterate_cases {motive : State α n m → Prop}
    (hfail : ∀ outcome index length, (attempt S P s).FailsWith unit outcome →
      motive (Attempt.fail s outcome index length))
    (hstep : ¬ (attempt S P s).IsFatal unit → motive (attempt S P s).advanced) :
    motive (iterate unit S P s) := by
  by_cases hfatal : (attempt S P s).IsFatal unit
  · obtain ⟨outcome, index, length, hfails, hnext⟩ := iterate_of_isFatal hfatal
    rw [hnext]
    exact hfail outcome index length hfails
  · rw [iterate_of_not_isFatal hfatal]
    exact hstep hfatal

theorem outcome_advanced (S : Analysis n m) (P : Problem α β n m) (s : State α n m) :
    (attempt S P s).advanced.outcome =
      if (attempt S P s).limit.index.isNone then .success else s.outcome := rfl

theorem iteration_iterate (unit : α) (S : Analysis n m) (P : Problem α β n m) (s : State α n m) :
    (iterate unit S P s).iteration = s.iteration + 1 :=
  iterate_cases (motive := fun t => t.iteration = s.iteration + 1) (fun _ _ _ _ => rfl)
    fun _ => rfl

/-- An iteration of a run without an outcome ends it exactly when it gives it one. -/
theorem done_iterate_iff (hs : s.outcome = .unfinished) :
    (iterate unit S P s).done = true ↔ (iterate unit S P s).outcome ≠ .unfinished := by
  refine iterate_cases (motive := fun t => t.done = true ↔ t.outcome ≠ .unfinished)
    (fun _ _ _ hfails => iff_of_true rfl hfails.ne_unfinished) fun _ => ?_
  change (attempt S P s).limit.index.isNone = true ↔ _
  rw [outcome_advanced]
  cases (attempt S P s).limit.index with
  | none => exact iff_of_true rfl Outcome.noConfusion
  | some e => exact iff_of_false Bool.false_ne_true (not_not.mpr hs)

/-- The states that iterations reach from the seeded one. Iterations beyond the end of a run are
allowed. -/
inductive Reached (unit : α) (S : Analysis n m) (P : Problem α β n m) (g : PrimalDual α n m) :
    State α n m → Prop
  | start : Reached unit S P g (State.start P g)
  | iterate {s : State α n m} (hs : Reached unit S P g s) :
      Reached unit S P g (iterate unit S P s)

theorem Reached.of_preserved {motive : State α n m → Prop} (hstart : motive (State.start P g))
    (hpreserved : ∀ s, motive s → motive (QuadraticProgram.iterate unit S P s))
    (hs : Reached unit S P g s) : motive s := by
  induction hs with
  | start => exact hstart
  | iterate _ ih => exact hpreserved _ ih

/-- A failure is the outcome of an attempt that has the reason for it. -/
theorem Reached.outcome_cases (hs : Reached unit S P g s) :
    s.outcome = .unfinished ∨ s.outcome = .success ∨
      ∃ t, Reached unit S P g t ∧ (attempt S P t).FailsWith unit s.outcome := by
  induction hs with
  | start => exact Or.inl rfl
  | @iterate s hs ih =>
    refine iterate_cases (motive := fun t => t.outcome = .unfinished ∨ t.outcome = .success ∨
      ∃ r, Reached unit S P g r ∧ (attempt S P r).FailsWith unit t.outcome)
      (fun _ _ _ hfails => Or.inr (Or.inr ⟨s, hs, hfails⟩)) fun _ => ?_
    rw [outcome_advanced]
    split_ifs
    · exact Or.inr (Or.inl rfl)
    · exact ih

/-- A run only iterates from states that are not done. -/
theorem run_of_preserved {motive : State α n m → Prop}
    (hpreserved : ∀ s, s.done = false → motive s → motive (iterate unit S P s)) (budget : ℕ)
    (hs : motive s) : motive (run unit S P budget s) := by
  induction budget generalizing s with
  | zero => exact hs
  | succ budget ih =>
    rw [run]
    split_ifs with hdone
    · exact hs
    · exact ih (hpreserved s (Bool.not_eq_true _ ▸ hdone) hs)

theorem reached_solveFrom (unit : α) (S : Analysis n m) (P : Problem α β n m)
    (g : PrimalDual α n m) (budget : ℕ) : Reached unit S P g (solveFrom unit S P g budget) :=
  run_of_preserved (fun _ _ hs => hs.iterate) budget .start

inductive Follows (unit : α) (S : Analysis n m) (P : Problem α β n m) (s : State α n m) :
    State α n m → Prop
  | next (hs : s.done = false) : Follows unit S P s (iterate unit S P s)
  | later {t : State α n m} (ht : Follows unit S P s t) (hdone : t.done = false) :
      Follows unit S P s (iterate unit S P t)

theorem Follows.trans {r t : State α n m} (hrs : Follows unit S P r s)
    (hst : Follows unit S P s t) : Follows unit S P r t := by
  induction hst with
  | next hs => exact hrs.later hs
  | later _ hdone ih => exact ih.later hdone

theorem Follows.reached {t : State α n m} (hs : Reached unit S P g s)
    (hst : Follows unit S P s t) : Reached unit S P g t := by
  induction hst with
  | next => exact hs.iterate
  | later _ _ ih => exact ih.iterate

theorem Follows.done_of_done_next {t : State α n m} (hst : Follows unit S P s t)
    (hnext : (iterate unit S P s).done = true) : t.done = true := by
  induction hst with
  | next => exact hnext
  | later _ hdone ih => exact absurd (hdone.symm.trans ih) Bool.false_ne_true

/-- A run makes its attempts at the states that come one after the other, until one is done. -/
theorem mem_attempts {budget : ℕ} {a : State α n m × Attempt α n m}
    (ha : a ∈ attempts unit S P budget s) :
    a.1.done = false ∧ a.2 = attempt S P a.1 ∧ (a.1 = s ∨ Follows unit S P s a.1) := by
  induction budget generalizing s with
  | zero => cases ha
  | succ budget ih =>
    rw [attempts] at ha
    split_ifs at ha with hdone
    · cases ha
    have hdone := Bool.not_eq_true _ ▸ hdone
    rcases List.mem_cons.mp ha with rfl | ha
    · exact ⟨hdone, rfl, Or.inl rfl⟩
    · obtain ⟨hrunning, hattempt, hlater⟩ := ih ha
      refine ⟨hrunning, hattempt, Or.inr ?_⟩
      have hnext : Follows unit S P s (iterate unit S P s) := .next hdone
      rcases hlater with heq | hlater
      · exact heq ▸ hnext
      · exact hnext.trans hlater

theorem pairwise_attempts (budget : ℕ) (s : State α n m) :
    (attempts unit S P budget s).Pairwise fun a b => Follows unit S P a.1 b.1 := by
  induction budget generalizing s with
  | zero => exact List.Pairwise.nil
  | succ budget ih =>
    rw [attempts]
    split_ifs with hdone
    · exact List.Pairwise.nil
    refine List.Pairwise.cons (fun a ha => ?_) (ih _)
    have hnext : Follows unit S P s (iterate unit S P s) := .next (Bool.not_eq_true _ ▸ hdone)
    rcases (mem_attempts ha).2.2 with heq | hlater
    · exact heq ▸ hnext
    · exact hnext.trans hlater

def stateAfter (unit : α) (S : Analysis n m) (P : Problem α β n m) (g : PrimalDual α n m) :
    ℕ → State α n m
  | 0 => State.start P g
  | k + 1 => iterate unit S P (stateAfter unit S P g k)

theorem reached_stateAfter (unit : α) (S : Analysis n m) (P : Problem α β n m)
    (g : PrimalDual α n m) (k : ℕ) : Reached unit S P g (stateAfter unit S P g k) := by
  induction k with
  | zero => exact .start
  | succ k ih => exact ih.iterate

theorem iteration_stateAfter (unit : α) (S : Analysis n m) (P : Problem α β n m)
    (g : PrimalDual α n m) (k : ℕ) : (stateAfter unit S P g k).iteration = k := by
  induction k with
  | zero => rfl
  | succ k ih => rw [stateAfter, iteration_iterate, ih]

section After

variable {k : ℕ} (hrunning : ∀ j < k, (stateAfter unit S P g j).done = false)
include hrunning

theorem follows_stateAfter {j : ℕ} (hjk : j < k) :
    Follows unit S P (stateAfter unit S P g j) (stateAfter unit S P g k) := by
  induction k with
  | zero => exact absurd hjk (Nat.not_lt_zero j)
  | succ k ih =>
    rcases Nat.lt_succ_iff_lt_or_eq.mp hjk with hlt | rfl
    · exact (ih (fun i hi => hrunning i (Nat.lt_succ_of_lt hi)) hlt).later
        (hrunning k k.lt_succ_self)
    · exact .next (hrunning j j.lt_succ_self)

theorem done_stateAfter_iff : (stateAfter unit S P g k).done = true ↔
    (stateAfter unit S P g k).outcome ≠ .unfinished := by
  induction k with
  | zero => exact iff_of_false Bool.false_ne_true (not_not.mpr rfl)
  | succ k ih =>
    refine done_iterate_iff ?_
    by_contra hne
    have hdone := (ih fun j hj => hrunning j (Nat.lt_succ_of_lt hj)).mpr hne
    exact absurd ((hrunning k k.lt_succ_self).symm.trans hdone) Bool.false_ne_true

theorem outcome_stateAfter {j : ℕ} (hjk : j < k) :
    (stateAfter unit S P g j).outcome = .unfinished := by
  by_contra hne
  have hdone := (done_stateAfter_iff fun i hi => hrunning i (Nat.lt_trans hi hjk)).mpr hne
  exact absurd ((hrunning j hjk).symm.trans hdone) Bool.false_ne_true

theorem solveFrom_add (budget : ℕ) :
    solveFrom unit S P g (k + budget) = run unit S P budget (stateAfter unit S P g k) := by
  induction k generalizing budget with
  | zero =>
    rw [Nat.zero_add]
    rfl
  | succ k ih =>
    rw [Nat.add_assoc, ih (fun i hi => hrunning i (Nat.lt_succ_of_lt hi)), Nat.add_comm 1, run,
      hrunning k k.lt_succ_self]
    rfl

/-- A budget that a run does not spend changes nothing. -/
theorem solveFrom_eq_stateAfter (hdone : (stateAfter unit S P g k).done = true) {budget : ℕ}
    (hle : k ≤ budget) : solveFrom unit S P g budget = stateAfter unit S P g k := by
  obtain ⟨rest, rfl⟩ := Nat.exists_eq_add_of_le hle
  rw [solveFrom_add hrunning]
  cases rest with
  | zero => rfl
  | succ rest => rw [run, if_pos hdone]

end After

/-- A run whose first iteration ends it takes no other one. -/
theorem solveFrom_eq_iterate (hdone : (iterate unit S P (State.start P g)).done = true)
    {budget : ℕ} (hbudget : 0 < budget) :
    solveFrom unit S P g budget = iterate unit S P (State.start P g) := by
  have hdone : (stateAfter unit S P g 1).done = true := hdone
  refine solveFrom_eq_stateAfter (fun j hj => ?_) hdone hbudget
  obtain rfl : j = 0 := Nat.lt_one_iff.mp hj
  rfl

theorem exists_solveFrom_eq_stateAfter (unit : α) (S : Analysis n m) (P : Problem α β n m)
    (g : PrimalDual α n m) (budget : ℕ) :
    ∃ k ≤ budget, (∀ j < k, (stateAfter unit S P g j).done = false) ∧
      solveFrom unit S P g budget = stateAfter unit S P g k ∧
      ((stateAfter unit S P g k).done = true ∨ k = budget) := by
  induction budget with
  | zero => exact ⟨0, Nat.le_refl 0, fun j hj => absurd hj j.not_lt_zero, rfl, Or.inr rfl⟩
  | succ budget ih =>
    obtain ⟨k, hle, hrunning, -, hend⟩ := ih
    by_cases hdone : (stateAfter unit S P g k).done = true
    · have hle := Nat.le_succ_of_le hle
      exact ⟨k, hle, hrunning, solveFrom_eq_stateAfter hrunning hdone hle, Or.inl hdone⟩
    -- the budget was spent before, and the new iteration spends the new one
    · obtain rfl : k = budget := hend.resolve_left hdone
      have hrunning : ∀ j < k + 1, (stateAfter unit S P g j).done = false := fun j hj =>
        (Nat.lt_succ_iff_lt_or_eq.mp hj).elim (hrunning j)
          fun heq => heq ▸ Bool.not_eq_true _ ▸ hdone
      exact ⟨k + 1, Nat.le_refl _, hrunning, solveFrom_add hrunning 0, Or.inr rfl⟩

/-- A run stops after the iterations it counts, at the first state that is done or with the budget
spent. -/
theorem solveFrom_spec (unit : α) (S : Analysis n m) (P : Problem α β n m) (g : PrimalDual α n m)
    (budget : ℕ) :
    let s := solveFrom unit S P g budget
    s.iteration ≤ budget ∧ s = stateAfter unit S P g s.iteration ∧
      (∀ j < s.iteration, (stateAfter unit S P g j).done = false) ∧
      (s.done = true ∨ s.iteration = budget) := by
  obtain ⟨k, hle, hrunning, hlast, hend⟩ := exists_solveFrom_eq_stateAfter unit S P g budget
  have hiteration : (stateAfter unit S P g k).iteration = k := iteration_stateAfter unit S P g k
  intro s
  have hs : s = stateAfter unit S P g k := hlast
  rw [hs, hiteration]
  exact ⟨hle, rfl, hrunning, hend⟩

/-- Before its end a run has no outcome, and success is the outcome of a full step. -/
theorem success_of_solveFrom {budget : ℕ}
    (h : (solveFrom unit S P g budget).outcome = .success) :
    ∃ s, Reached unit S P g s ∧ ¬ (attempt S P s).IsFatal unit ∧
      (attempt S P s).limit.index = none ∧
      solveFrom unit S P g budget = (attempt S P s).advanced := by
  obtain ⟨-, hlast, hrunning, -⟩ := solveFrom_spec unit S P g budget
  cases hk : (solveFrom unit S P g budget).iteration with
  | zero =>
    rw [hlast, hk] at h
    exact Outcome.noConfusion h
  | succ k =>
    rw [hk] at hlast hrunning
    let s := stateAfter unit S P g k
    have hlast : solveFrom unit S P g budget = iterate unit S P s := hlast
    have hunfinished : s.outcome = .unfinished := outcome_stateAfter hrunning k.lt_succ_self
    rw [hlast] at h ⊢
    by_cases hfatal : (attempt S P s).IsFatal unit
    · obtain ⟨outcome, index, length, hfails, hnext⟩ := iterate_of_isFatal hfatal
      rw [hnext] at h
      exact absurd h hfails.ne_success
    rw [iterate_of_not_isFatal hfatal] at h ⊢
    refine ⟨s, reached_stateAfter unit S P g k, hfatal, ?_, rfl⟩
    by_contra hindex
    have hstopped : ¬ (attempt S P s).limit.index.isNone = true :=
      fun hnone => hindex (Option.isNone_iff_eq_none.mp hnone)
    exact Outcome.noConfusion (h.symm.trans ((if_neg hstopped).trans hunfinished))

end QuadraticProgram
