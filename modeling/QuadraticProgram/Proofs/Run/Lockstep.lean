import QuadraticProgram.Proofs.Run.Reachable

/-! # Runs side by side

A relation that holds of the seeded states of two runs and that every pair of iterations keeps holds
of all pairs of states, and if it shows when a run is done both runs stop together. An iteration
that finds its system singular reports a pivot and a length that nothing is meant to depend on, so
states are compared up to what such an iteration reports.
-/
namespace QuadraticProgram

variable {α β : Type} [Scalar α] [Bound α β] {n m : ℕ}
variable {unit unit' : α} {S S' : Analysis n m} {P P' : Problem α β n m}
variable {g g' : PrimalDual α n m} {s t : State α n m} {a b : Attempt α n m}

section Stop

variable {budget k : ℕ}

theorem lt_iteration_solveFrom (hk : k < budget)
    (hrunning : ∀ j ≤ k, (stateAfter unit S P g j).done = false) :
    k < (solveFrom unit S P g budget).iteration := by
  obtain ⟨-, hlast, -, hend⟩ := solveFrom_spec unit S P g budget
  by_contra hle
  have hle := Nat.le_of_not_lt hle
  rcases hend with hdone | hspent
  · rw [hlast, hrunning _ hle] at hdone
    exact Bool.false_ne_true hdone
  · omega

/-- A run ends with the first system that it finds singular. -/
theorem not_isSingular_of_outcome_ne (hk : k < (solveFrom unit S P g budget).iteration)
    (houtcome : (solveFrom unit S P g budget).outcome ≠ .singular) :
    ¬ (attempt S P (stateAfter unit S P g k)).IsSingular unit := by
  intro hsingular
  obtain ⟨-, hlast, hrunning, -⟩ := solveFrom_spec unit S P g budget
  have hfail := Attempt.next_of_isSingular hsingular (stateAfter unit S P g k)
  have hdone : (stateAfter unit S P g (k + 1)).done = true := congrArg State.done hfail
  have houtcome' : (stateAfter unit S P g (k + 1)).outcome = .singular :=
    congrArg State.outcome hfail
  rcases Nat.lt_or_eq_of_le (Nat.succ_le_of_lt hk) with hlt | heq
  · exact Bool.false_ne_true ((hrunning _ hlt).symm.trans hdone)
  · rw [hlast, ← heq] at houtcome
    exact houtcome houtcome'

end Stop

section Related

variable {R : State α n m → State α n m → Prop}

theorem related_stateAfter {k : ℕ} (hstart : R (State.start P g) (State.start P' g'))
    (hstep : ∀ j < k, R (stateAfter unit S P g j) (stateAfter unit' S' P' g' j) →
      R (stateAfter unit S P g (j + 1)) (stateAfter unit' S' P' g' (j + 1))) :
    R (stateAfter unit S P g k) (stateAfter unit' S' P' g' k) := by
  induction k with
  | zero => exact hstart
  | succ k ih => exact hstep k k.lt_succ_self (ih fun j hj => hstep j (Nat.lt_succ_of_lt hj))

/-- Two runs whose states are related stop after the same number of iterations. -/
theorem related_solveFrom {budget : ℕ} (hdone : ∀ s t, R s t → t.done = s.done)
    (hstates : ∀ k ≤ (solveFrom unit S P g budget).iteration,
      R (stateAfter unit S P g k) (stateAfter unit' S' P' g' k)) :
    R (solveFrom unit S P g budget) (solveFrom unit' S' P' g' budget) := by
  obtain ⟨k, hle, hrunning, hlast, hend⟩ := exists_solveFrom_eq_stateAfter unit S P g budget
  rw [hlast, iteration_stateAfter] at hstates
  have hrunning' : ∀ j < k, (stateAfter unit' S' P' g' j).done = false := fun j hj =>
    (hdone _ _ (hstates j (Nat.le_of_lt hj))).trans (hrunning j hj)
  have hlast' : solveFrom unit' S' P' g' budget = stateAfter unit' S' P' g' k := by
    rcases hend with hstop | rfl
    · have hstop' := (hdone _ _ (hstates k (Nat.le_refl k))).trans hstop
      exact solveFrom_eq_stateAfter hrunning' hstop' hle
    · exact solveFrom_add hrunning' 0
  rw [hlast, hlast']
  exact hstates k (Nat.le_refl k)

/-- Neither run has to be told where the other one stops when no system is found singular. -/
theorem related_of_regular {budget : ℕ} (hdone : ∀ s t, R s t → t.done = s.done)
    (hstart : R (State.start P g) (State.start P' g'))
    (hstep : ∀ s t, R s t → ¬ (attempt S P s).IsSingular unit →
      ¬ (attempt S' P' t).IsSingular unit' → R (iterate unit S P s) (iterate unit' S' P' t))
    (hs : (solveFrom unit S P g budget).outcome ≠ .singular)
    (ht : (solveFrom unit' S' P' g' budget).outcome ≠ .singular) :
    R (solveFrom unit S P g budget) (solveFrom unit' S' P' g' budget) := by
  obtain ⟨hbudget, -, hrunning, -⟩ := solveFrom_spec unit S P g budget
  refine related_solveFrom hdone fun k => ?_
  induction k using Nat.strongRecOn with
  | ind k ih =>
    cases k with
    | zero => exact fun _ => hstart
    | succ k =>
      intro hk
      -- the related states before this one are not done, so the second run comes to it as well
      have hbefore : ∀ j ≤ k, R (stateAfter unit S P g j) (stateAfter unit' S' P' g' j) :=
        fun j hj => ih j (Nat.lt_succ_of_le hj) (by omega)
      have hk' : k < (solveFrom unit' S' P' g' budget).iteration :=
        lt_iteration_solveFrom (Nat.lt_of_lt_of_le hk hbudget) fun j hj =>
          (hdone _ _ (hbefore j hj)).trans (hrunning j (Nat.lt_of_le_of_lt hj hk))
      exact hstep _ _ (hbefore k (Nat.le_refl k)) (not_isSingular_of_outcome_ne hk hs)
        (not_isSingular_of_outcome_ne hk' ht)

end Related

namespace State

/-- The states agree up to what a singular iteration reports. -/
structure Alike (s t : State α n m) : Prop where
  value : t.value = s.value
  active : t.active = s.active
  objective : t.objective = s.objective
  kind : t.kind = s.kind
  iteration : t.iteration = s.iteration
  done : t.done = s.done
  outcome : t.outcome = s.outcome
  last : s.outcome ≠ .singular → t.length = s.length ∧ t.index = s.index

omit [Scalar α] in
theorem Alike.refl (s : State α n m) : s.Alike s :=
  ⟨rfl, rfl, rfl, rfl, rfl, rfl, rfl, fun _ => ⟨rfl, rfl⟩⟩

omit [Scalar α] in
theorem Alike.eq (h : s.Alike t) (houtcome : s.outcome ≠ .singular) : t = s := by
  obtain ⟨hvalue, hactive, hobjective, hkind, hiteration, hdone, hresult, hlast⟩ := h
  obtain ⟨hlength, hindex⟩ := hlast houtcome
  cases s
  cases t
  simp_all only

omit [Scalar α] in
theorem Alike.fail_eq (h : s.Alike t) (outcome : Outcome) (index : Option (Fin (n + m)))
    (length : α) : Attempt.fail t outcome index length = Attempt.fail s outcome index length := by
  simp only [Attempt.fail, h.value, h.active, h.objective, h.kind, h.iteration]

theorem Alike.advance_eq (h : s.Alike t) (P : Problem α β n m) (d : Direction α (n + m))
    (limit : StepLimit α (n + m)) : P.advance t d limit = P.advance s d limit := by
  simp only [Problem.advance, point, h.value, h.active, h.iteration, h.outcome]

omit [Scalar α] in
theorem alike_fail_singular (s : State α n m) (index index' : Option (Fin (n + m)))
    (length length' : α) :
    (Attempt.fail s .singular index length).Alike (Attempt.fail s .singular index' length') :=
  ⟨rfl, rfl, rfl, rfl, rfl, rfl, rfl, fun h => absurd rfl h⟩

end State

namespace Attempt

variable {f : State α n m → State α n m}

/-- An iteration whose system is regular depends on its state through the step and its limit. -/
theorem next_eq_of_limit_eq (hf : ∀ s outcome index length,
      f (fail s outcome index length) = fail (f s) outcome index length)
    (hst : (f s).Alike t) (ha : ¬ a.IsSingular unit) (hb : ¬ b.IsSingular unit')
    (hlimit : b.limit = a.limit) (hadvanced : b.advanced = f a.advanced) :
    b.next unit' t = f (a.next unit s) := by
  rw [next, next, if_neg ha, if_neg hb, hlimit]
  cases a.limit.invalid with
  | none => exact hadvanced
  | some e => exact (hst.fail_eq _ _ _).trans (hf _ _ _ _).symm

/-- Two iterations that are singular together, and otherwise take corresponding steps, keep states
alike. -/
theorem alike_next (hf : ∀ s outcome index length,
      f (fail s outcome index length) = fail (f s) outcome index length)
    (hst : (f s).Alike t) (hsingular : b.IsSingular unit' ↔ a.IsSingular unit)
    (hregular : ¬ a.IsSingular unit → b.limit = a.limit ∧ b.advanced = f a.advanced) :
    (f (a.next unit s)).Alike (b.next unit' t) := by
  by_cases ha : a.IsSingular unit
  · rw [next_of_isSingular ha, next_of_isSingular (hsingular.mpr ha), hf, hst.fail_eq]
    exact State.alike_fail_singular (f s) _ _ _ _
  · obtain ⟨hlimit, hadvanced⟩ := hregular ha
    rw [next_eq_of_limit_eq hf hst ha (hsingular.not.mpr ha) hlimit hadvanced]
    exact .refl _

end Attempt

end QuadraticProgram
