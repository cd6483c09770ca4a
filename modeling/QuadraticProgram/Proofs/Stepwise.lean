import QuadraticProgram.Solver.Stepwise
import QuadraticProgram.Proofs.Run.Converged

/-! # Stepwise runs

A driver that asks whether to stop before each step goes through the states of the run that a solve
makes, and carries the points of these states. It stops where the run stops, with the budget spent
or done, and only the last iteration can be the one that fails: there the driver's step is refused,
and the solve reports the failure.
-/
namespace QuadraticProgram

variable {α β : Type} [Scalar α] [Bound α β] {n m : ℕ}
variable {unit : α} {P : Problem α β n m} {g : PrimalDual α n m} {s : State α n m}
variable {cause : StepRefusal}

omit [Scalar α] in
theorem Progress.to_of_refusal (h : s.outcome.refusal? = some cause) :
    Progress.to s = .error cause := by
  rw [Progress.to, h]
  rfl

omit [Scalar α] in
theorem Progress.to_of_no_refusal (h : s.outcome.refusal? = none) :
    Progress.to s = .ok ⟨s.point, s⟩ := by
  rw [Progress.to, h]
  rfl

def Progress.after (unit : α) (S : Analysis n m) (P : Problem α β n m) (g : PrimalDual α n m)
    (k : ℕ) : Progress α n m :=
  ⟨(stateAfter unit S P g k).point, stateAfter unit S P g k⟩

theorem Progress.start_eq (unit : α) (S : Analysis n m) (P : Problem α β n m)
    (g : PrimalDual α n m) : Progress.start P g = Progress.after unit S P g 0 :=
  congrArg (Progress.mk · (State.start P g)) (P.onVariables_valuesAt g.point).symm

namespace Solver

variable {solver : Solver n m} {p : Progress α n m} {k : ℕ}

omit [Scalar α] in
theorem shouldStop_eq_false_iff : solver.shouldStop s = false ↔
    s.done = false ∧ s.iteration < solver.settings.budget := by
  rw [shouldStop, Bool.or_eq_false_iff, decide_eq_false_iff_not, not_le]

theorem stepMany_of_shouldStop (hstop : solver.shouldStop p.state = true) (limit : ℕ) :
    solver.stepMany unit P limit p = .ok p := by
  cases limit with
  | zero => rfl
  | succ limit => exact if_pos hstop

theorem stepMany_succ (hgo : solver.shouldStop p.state = false) (limit : ℕ) :
    solver.stepMany unit P (limit + 1) p =
      (solver.step unit P p).bind (solver.stepMany unit P limit) :=
  if_neg (Bool.not_eq_true _ ▸ hgo)

theorem step_of_refusal
    (hcause : (stateAfter unit solver.analysis P g (k + 1)).outcome.refusal? = some cause) :
    solver.step unit P (Progress.after unit solver.analysis P g k) = .error cause :=
  Progress.to_of_refusal hcause

theorem step_of_no_refusal
    (hregular : (stateAfter unit solver.analysis P g (k + 1)).outcome.refusal? = none) :
    solver.step unit P (Progress.after unit solver.analysis P g k) =
      .ok (Progress.after unit solver.analysis P g (k + 1)) :=
  Progress.to_of_no_refusal hregular

theorem shouldStop_stateAfter
    (hrunning : ∀ j < k, (stateAfter unit solver.analysis P g j).done = false)
    (hk : k ≤ solver.settings.budget) {j : ℕ} (hj : j < k) :
    solver.shouldStop (stateAfter unit solver.analysis P g j) = false := by
  rw [shouldStop_eq_false_iff, iteration_stateAfter]
  exact ⟨hrunning j hj, hj.trans_le hk⟩

section Steps

variable (hrunning : ∀ j < k + 1, (stateAfter unit solver.analysis P g j).done = false)
  (hk : k + 1 ≤ solver.settings.budget)
include hrunning hk

/-- The driver comes to the state before the last iteration and makes one more step. -/
theorem stepMany_add (rest : ℕ) :
    solver.stepMany unit P (k + 1 + rest) (Progress.start P g) =
      (solver.step unit P (Progress.after unit solver.analysis P g k)).bind
        (solver.stepMany unit P rest) := by
  induction k generalizing rest with
  | zero =>
    have hgo := shouldStop_stateAfter hrunning hk Nat.one_pos
    rw [Progress.start_eq unit solver.analysis, Nat.zero_add, Nat.add_comm 1]
    exact stepMany_succ hgo rest
  | succ k ih =>
    have hunfinished := outcome_stateAfter hrunning (k + 1).lt_succ_self
    have hgo := shouldStop_stateAfter hrunning hk (k + 1).lt_succ_self
    -- the state in between is not the last one of the run, so no step up to it is refused
    have hearlier : ∀ j < k + 1, (stateAfter unit solver.analysis P g j).done = false :=
      fun j hj => hrunning j (hj.trans (k + 1).lt_succ_self)
    rw [Nat.add_assoc (k + 1), ih hearlier ((k + 1).le_succ.trans hk),
      step_of_no_refusal (congrArg Outcome.refusal? hunfinished), Nat.add_comm 1]
    exact stepMany_succ hgo rest

theorem stepMany_of_refusal
    (hcause : (stateAfter unit solver.analysis P g (k + 1)).outcome.refusal? = some cause)
    {limit : ℕ} (hlimit : k < limit) :
    solver.stepMany unit P limit (Progress.start P g) = .error cause := by
  obtain ⟨rest, rfl⟩ := Nat.exists_eq_add_of_le hlimit
  rw [stepMany_add hrunning hk, step_of_refusal hcause]
  rfl

end Steps

theorem stepMany_of_no_refusal
    (hrunning : ∀ j < k, (stateAfter unit solver.analysis P g j).done = false)
    (hk : k ≤ solver.settings.budget)
    (hregular : (stateAfter unit solver.analysis P g k).outcome.refusal? = none) (rest : ℕ) :
    solver.stepMany unit P (k + rest) (Progress.start P g) =
      solver.stepMany unit P rest (Progress.after unit solver.analysis P g k) := by
  cases k with
  | zero => rw [Nat.zero_add, Progress.start_eq]
  | succ k =>
    rw [stepMany_add hrunning hk, step_of_no_refusal hregular]
    rfl

section Last

variable (hlast : s.done = true ∨ s.iteration = solver.settings.budget)
include hlast

omit [Scalar α] in
theorem shouldStop_of_last : solver.shouldStop s = true := by
  rw [shouldStop, Bool.or_eq_true, decide_eq_true_iff]
  exact hlast.imp_right Eq.ge

omit [Scalar α] in
/-- The verdict on the last state is its outcome. -/
theorem verdict_of_last (hdone : s.done = true ↔ s.outcome ≠ .unfinished)
    (hregular : s.outcome.refusal? = none) :
    (solver.verdict s = .successful ↔ s.outcome = .success) ∧
      (solver.verdict s = .budgetSpent ↔ s.outcome = .unfinished) := by
  cases houtcome : s.outcome with
  | success =>
    have hverdict : solver.verdict s = .successful := if_pos houtcome
    simp [hverdict]
  | unfinished =>
    have hspent : s.iteration = solver.settings.budget :=
      hlast.resolve_left fun h => hdone.mp h houtcome
    have hverdict : solver.verdict s = .budgetSpent := by
      rw [verdict, houtcome, if_neg Outcome.noConfusion, if_pos hspent.ge]
    simp [hverdict]
  | singular =>
    rw [houtcome] at hregular
    cases hregular
  | invalidStep =>
    rw [houtcome] at hregular
    cases hregular

end Last

theorem minimise_of_shouldStop
    (hrunning : ∀ j < k, (stateAfter unit solver.analysis P g j).done = false)
    (hk : k ≤ solver.settings.budget)
    (hregular : (stateAfter unit solver.analysis P g k).outcome.refusal? = none)
    (hstop : solver.shouldStop (stateAfter unit solver.analysis P g k) = true)
    {limit : ℕ} (hlimit : k ≤ limit) :
    solver.minimise unit P g limit = .ok ⟨(stateAfter unit solver.analysis P g k).point,
      (stateAfter unit solver.analysis P g k).statistics,
      solver.verdict (stateAfter unit solver.analysis P g k)⟩ := by
  obtain ⟨rest, rfl⟩ := Nat.exists_eq_add_of_le hlimit
  rw [minimise, stepMany_of_no_refusal hrunning hk hregular, stepMany_of_shouldStop hstop,
    Except.map, ending, Progress.after, if_pos hstop]

/-- A driven run and a solve agree. Before its last iteration the run is at the same states, with
their points, and nothing stops the driver. Where the run ends without a failure the driver stops,
under any limit that is not smaller, and reports the same answer; it is converged exactly when the
solve is. Where the run ends with a failure the driver's step is refused, and the solve reports the
failure. -/
theorem minimise_agrees {Q : SizedProblem α β} {guess : GuessData α}
    (haccept : solver.accept Q = .ok P) (hguess : guess.toPrimalDual n m = .ok g) :
    let result := (solver.solve unit Q guess []).result
    let s := solveFrom unit solver.analysis P g solver.settings.budget
    let visited (k : ℕ) := stateAfter unit solver.analysis P g k
    (s.iteration ≤ solver.settings.budget ∧ s = visited s.iteration ∧
      ∀ k < s.iteration, (visited k).done = false ∧
        solver.stepMany unit P k (Progress.start P g) = .ok ⟨(visited k).point, visited k⟩ ∧
        solver.shouldStop (visited k) = false) ∧
    (s.outcome = .success ∨ s.outcome = .unfinished → result = .ok s ∧
      solver.stepMany unit P s.iteration (Progress.start P g) = .ok ⟨s.point, s⟩ ∧
      solver.shouldStop s = true ∧
      (solver.verdict s = .successful ↔ s.outcome = .success) ∧
      (solver.verdict s = .budgetSpent ↔ s.outcome = .unfinished) ∧
      ∀ limit ≥ s.iteration, solver.minimise unit P g limit =
        .ok ⟨s.point, ⟨s.iteration, s.objective, s.active⟩, solver.verdict s⟩) ∧
    (∀ cause, s.outcome.refusal? = some cause → ∃ k, s.iteration = k + 1 ∧
      solver.step unit P ⟨(visited k).point, visited k⟩ = .error cause ∧
      ∀ limit > k, solver.minimise unit P g limit = .error cause) ∧
    (s.outcome = .singular →
      result = .error (.run (.singular s.iteration (blamed s.index) none))) ∧
    (s.outcome = .invalidStep →
      result = .error (.run (.invalidStep s.iteration (blamed s.index) s.length))) := by
  intro result s visited
  have hresult : result = conclude s := result_of_accept haccept hguess
  obtain ⟨hk, hlast, hrunning, hend⟩ : s.iteration ≤ solver.settings.budget ∧
      s = visited s.iteration ∧ (∀ j < s.iteration, (visited j).done = false) ∧
      (s.done = true ∨ s.iteration = solver.settings.budget) :=
    solveFrom_spec unit solver.analysis P g solver.settings.budget
  -- from here on the last state is the one after `k` iterations
  obtain ⟨k, hiteration⟩ : ∃ k, s.iteration = k := ⟨_, rfl⟩
  rw [hiteration] at hk hlast hrunning ⊢
  rw [hlast] at hresult hend ⊢
  have hdone : (visited k).done = true ↔ (visited k).outcome ≠ .unfinished :=
    done_stateAfter_iff hrunning
  refine ⟨⟨hk, rfl, fun j hj => ⟨hrunning j hj, ?_, shouldStop_stateAfter hrunning hk hj⟩⟩,
    fun houtcome => ?_, fun cause hcause => ?_, fun houtcome => ?_, fun houtcome => ?_⟩
  · have hunfinished := outcome_stateAfter hrunning hj
    exact stepMany_of_no_refusal (fun i hi => hrunning i (hi.trans hj)) (hj.le.trans hk)
      (congrArg Outcome.refusal? hunfinished) 0
  · have hregular : (visited k).outcome.refusal? = none := by
      rcases houtcome with h | h <;> rw [h] <;> rfl
    have hstop : solver.shouldStop (visited k) = true := shouldStop_of_last hend
    obtain ⟨hsuccessful, hspent⟩ := verdict_of_last hend hdone hregular
    refine ⟨hresult.trans ?_, stepMany_of_no_refusal hrunning hk hregular 0, hstop, hsuccessful,
      hspent, fun limit hlimit => ?_⟩
    · rcases houtcome with h | h <;> rw [conclude, h] <;> rfl
    · have hminimise := minimise_of_shouldStop hrunning hk hregular hstop hlimit
      rwa [State.statistics, iteration_stateAfter] at hminimise
  · cases k with
    | zero => cases hcause
    | succ k =>
      refine ⟨k, rfl, step_of_refusal hcause, fun limit hlimit => ?_⟩
      rw [minimise, stepMany_of_refusal hrunning hk hcause hlimit]
      rfl
  · rw [hresult, conclude, houtcome, iteration_stateAfter]
    rfl
  · rw [hresult, conclude, houtcome, iteration_stateAfter]
    rfl

theorem minimise_agrees_aboveOne :
    let solver : Solver 1 0 :=
      ⟨Problem.aboveOne.analyze .minimumDegree, ⟨1000, false, by decide⟩⟩
    let Q : SizedProblem ℝ EReal := ⟨1, 0, Problem.aboveOne, one_pos⟩
    let s := solveFrom 0 solver.analysis Problem.aboveOne .zero 1000
    solver.accept Q = .ok Problem.aboveOne ∧
      GuessData.toPrimalDual ⟨none, none, none⟩ 1 0 = .ok PrimalDual.zero ∧
      (solver.solve 0 Q ⟨none, none, none⟩ []).result = .ok s ∧
      solver.minimise 0 Problem.aboveOne .zero 50 =
        .ok ⟨s.point, ⟨s.iteration, s.objective, s.active⟩, .successful⟩ := by
  intro solver Q s
  have haccept : solver.accept Q = .ok Problem.aboveOne := accept_aboveOne _ solver.settings
  have hguess : GuessData.toPrimalDual ⟨none, none, none⟩ 1 0 = .ok PrimalDual.zero := rfl
  obtain ⟨hsuccess, hiteration, -⟩ :=
    solveFrom_aboveOne .minimumDegree solver.settings.budget_pos
  have hlimit : s.iteration ≤ 50 := hiteration.le.trans (by decide)
  obtain ⟨hresult, -, -, hverdict, -, hminimise⟩ :=
    (minimise_agrees haccept hguess).2.1 (Or.inl hsuccess)
  refine ⟨haccept, hguess, hresult, (hminimise 50 hlimit).trans ?_⟩
  rw [hverdict.mpr hsuccess]

end Solver

end QuadraticProgram
