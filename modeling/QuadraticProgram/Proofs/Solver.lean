import Mathlib.Tactic.Common
import QuadraticProgram.Solver.Basic

/-! # What a solve runs

Checks in a row pass when each of them passes, and fail with the cause of the first that does not.
The checks before a run fail with a cause of their own, never with a failure of the run, and the
problem they let pass is the given one. So a failure of the run is what its last state concludes to.
-/
namespace QuadraticProgram

section Checks

variable {ε ε' τ υ : Type} {x : Except ε τ}

theorem bind_eq_ok {f : τ → Except ε υ} {r : υ} (h : x >>= f = .ok r) :
    ∃ a, x = .ok a ∧ f a = .ok r := by
  cases x with
  | error cause => cases h
  | ok a => exact ⟨a, rfl, h⟩

theorem bind_eq_error {f : τ → Except ε υ} {cause : ε} (h : x >>= f = .error cause) :
    x = .error cause ∨ ∃ a, x = .ok a ∧ f a = .error cause := by
  cases x with
  | error other =>
    cases h
    exact Or.inl rfl
  | ok a => exact Or.inr ⟨a, rfl, h⟩

theorem mapError_eq_ok {f : ε → ε'} {a : τ} (h : x.mapError f = .ok a) : x = .ok a := by
  cases x with
  | error cause => cases h
  | ok b =>
    cases h
    rfl

theorem mapError_eq_error {f : ε → ε'} {cause : ε'} (h : x.mapError f = .error cause) :
    ∃ inner, x = .error inner ∧ f inner = cause := by
  cases x with
  | error inner =>
    cases h
    exact ⟨inner, rfl, rfl⟩
  | ok a => cases h

end Checks

namespace Solver

variable {α β : Type} [Scalar α] [Bound α β] {n m : ℕ}
variable {solver : Solver n m} {Q : SizedProblem α β} {guess : GuessData α}
variable {options : List (String × SettingValue)}

theorem problem_of_accept {P : Problem α β n m} (h : solver.accept Q = .ok P) :
    ∃ (hn : Q.n = n) (hm : Q.m = m), P = Q.problem.cast hn hm := by
  unfold accept at h
  by_cases hsize : Q.n = n ∧ Q.m = m
  · rw [dif_pos hsize] at h
    dsimp only at h
    split_ifs at h
    cases h
    exact ⟨hsize.1, hsize.2, rfl⟩
  · rw [dif_neg hsize] at h
    cases h

theorem prepare_eq_ok {job : Job α β n m} (h : solver.prepare Q guess options = .ok job) :
    solver.settings.setAll options = .ok job.settings ∧ solver.accept Q = .ok job.problem ∧
      guess.toPrimalDual n m = .ok job.guess := by
  obtain ⟨settings, hsettings, h⟩ := bind_eq_ok h
  obtain ⟨P, hproblem, h⟩ := bind_eq_ok h
  obtain ⟨g, hguess, h⟩ := bind_eq_ok h
  cases h
  exact ⟨mapError_eq_ok hsettings, mapError_eq_ok hproblem, mapError_eq_ok hguess⟩

theorem prepare_ne_run (cause : RunError α) :
    solver.prepare Q guess options ≠ .error (.run cause) := by
  intro h
  rcases bind_eq_error h with hsettings | ⟨settings, -, h⟩
  · obtain ⟨inner, -, hcause⟩ := mapError_eq_error hsettings
    cases hcause
  rcases bind_eq_error h with hproblem | ⟨P, -, h⟩
  · obtain ⟨inner, -, hcause⟩ := mapError_eq_error hproblem
    cases hcause
  rcases bind_eq_error h with hguess | ⟨g, -, h⟩
  · obtain ⟨inner, -, hcause⟩ := mapError_eq_error hguess
    cases hcause
  · cases h

/-- A failure of the run comes from the last state of a job that passed the checks. -/
theorem conclude_of_solve {unit : α} {cause : RunError α}
    (h : (solver.solve unit Q guess options).result = .error (.run cause)) :
    ∃ job, solver.prepare Q guess options = .ok job ∧
      conclude (solveFrom unit solver.analysis job.problem job.guess job.settings.budget) =
        .error (.run cause) := by
  unfold solve at h
  cases hjob : solver.prepare Q guess options with
  | error other =>
    rw [hjob] at h
    cases h
    exact absurd hjob (prepare_ne_run cause)
  | ok job =>
    rw [hjob] at h
    exact ⟨job, rfl, h⟩

/-- The check of the pattern finds nothing in a problem that a solver accepts. -/
theorem not_misses_of_accept {P : Problem α β n m} (h : solver.accept Q = .ok P) :
    ¬ solver.analysis.hessian.Misses P.hessian ∧
      ¬ solver.analysis.constraints.Misses P.constraints := by
  unfold accept at h
  by_cases hsize : Q.n = n ∧ Q.m = m
  · rw [dif_pos hsize] at h
    dsimp only at h
    split_ifs at h with hmisses
    cases h
    exact not_or.mp hmisses
  · rw [dif_neg hsize] at h
    cases h

theorem accept_of_not_misses {P : Problem α β n m} (hn : 0 < n)
    (hH : ¬ solver.analysis.hessian.Misses P.hessian)
    (hA : ¬ solver.analysis.constraints.Misses P.constraints) :
    solver.accept ⟨n, m, P, hn⟩ = .ok P := by
  rw [accept, dif_pos ⟨rfl, rfl⟩]
  exact if_neg (not_or.mpr ⟨hH, hA⟩)

omit [Scalar α] in
theorem conclude_of_success {s : State α n m} (h : s.outcome = .success) : conclude s = .ok s := by
  rw [conclude, h]
  rfl

theorem result_of_prepare {unit : α} {job : Job α β n m}
    (hjob : solver.prepare Q guess options = .ok job) :
    (solver.solve unit Q guess options).result =
      conclude (solveFrom unit solver.analysis job.problem job.guess job.settings.budget) := by
  rw [solve, hjob]
  rfl

theorem prepare_of_accept {P : Problem α β n m} {g : PrimalDual α n m}
    (haccept : solver.accept Q = .ok P) (hguess : guess.toPrimalDual n m = .ok g) :
    solver.prepare Q guess [] = .ok ⟨P, g, solver.settings⟩ := by
  rw [prepare, haccept, hguess]
  rfl

theorem result_of_accept {unit : α} {P : Problem α β n m} {g : PrimalDual α n m}
    (haccept : solver.accept Q = .ok P) (hguess : guess.toPrimalDual n m = .ok g) :
    (solver.solve unit Q guess []).result =
      conclude (solveFrom unit solver.analysis P g solver.settings.budget) :=
  result_of_prepare (prepare_of_accept haccept hguess)

omit [Scalar α] in
theorem eq_of_conclude {s t : State α n m} (h : conclude s = .ok t) : t = s := by
  unfold conclude at h
  cases houtcome : s.outcome <;> rw [houtcome] at h <;> cases h <;> rfl

/-- An answer is the last state of a job that passed the checks. -/
theorem eq_solveFrom_of_solve {unit : α} {s : State α n m}
    (h : (solver.solve unit Q guess options).result = .ok s) :
    ∃ job, solver.prepare Q guess options = .ok job ∧
      s = solveFrom unit solver.analysis job.problem job.guess job.settings.budget := by
  cases hjob : solver.prepare Q guess options with
  | error cause =>
    rw [solve, hjob] at h
    cases h
  | ok job =>
    rw [result_of_prepare hjob] at h
    exact ⟨job, rfl, eq_of_conclude h⟩

omit [Scalar α] in
theorem outcome_of_conclude {s : State α n m} {iteration index : Int} {length : α}
    (h : conclude s = .error (.run (.invalidStep iteration index length))) :
    s.outcome = .invalidStep := by
  unfold conclude at h
  cases houtcome : s.outcome with
  | invalidStep => rfl
  | _ =>
    rw [houtcome] at h
    cases h

end Solver

end QuadraticProgram
