import QuadraticProgram.Proofs.Kernel
import QuadraticProgram.Proofs.Run.Lockstep
import QuadraticProgram.Proofs.Run.Shrinking
import QuadraticProgram.Proofs.Run.Success

/-! # Converged answers

A converged answer settles everything but the free entries. Only a free entry on its way out of the
bounds can be in the way of a step, so one that starts outside them and stays, or comes back part of
the way, is left where it is. So the answer is no worse than any feasible point, but it is feasible
itself only if the free entries are within their bounds.
-/
namespace QuadraticProgram

variable {n m : ℕ} {unit : ℝ} {S : Analysis n m} {P : Problem ℝ EReal n m}
variable {g : PrimalDual ℝ n m} {s : State ℝ n m}

theorem State.Settled.feasible_iff (hs : s.Settled P) (hcoherent : s.Coherent P) :
    P.Feasible s.point ↔ ∀ e, s.active.status.get e = .inactive →
      P.lower.get e ≤ s.value.get e ∧ s.value.get e ≤ P.upper.get e := by
  rw [hcoherent.value, Problem.Feasible]
  refine ⟨fun hfeasible e _ => hfeasible e, fun hfree e => ?_⟩
  by_cases he : s.active.status.get e = .inactive
  · exact hfree e he
  rw [hs.held e he]
  cases s.active.status.get e with
  | upper => exact ⟨P.lower_le_upper e, le_rfl⟩
  | _ => exact ⟨le_rfl, P.lower_le_upper e⟩

/-- From a balanced state with every held entry on its bound an iteration takes a full step to where
it is. Nothing looks at the free entries. -/
theorem State.Coherent.iterate_of_balanced (hunit : 0 ≤ unit) (hP : P.Proper)
    (hH : P.hessian.toMatrix.IsSymm) (hS : S.Covers P) (hs : s.Coherent P)
    (hregular : ¬ (attempt S P s).IsSingular unit)
    (hbalance : ∀ i, P.balance s.point s.active.multiplier i = 0)
    (hheld : ∀ e, (s.active.status.get e).IsActive → ((s.value.get e : ℝ) : EReal) =
      (s.active.status.get e).boundOn (P.lower.get e) (P.upper.get e)) :
    QuadraticProgram.iterate unit S P s =
      { s with
        length := 1
        index := none
        kind := none
        iteration := s.iteration + 1
        done := true
        outcome := .success } := by
  have hzero := hs.direction_eq_zero_of_balanced hP hH hS (solves_attempt hunit hS hregular)
    (isUnit_modify_of_not_isSingular hunit hS hregular) hbalance hheld
  have hfull : (attempt S P s).limit.index = none := index_eq_none_of_direction_eq_zero hP hzero
  have hdone : (attempt S P s).limit.index.isNone = true := Option.isNone_iff_eq_none.mpr hfull
  have hpoint : (attempt S P s).advanced.point = s.point := by
    refine vector_ext fun i => ?_
    have hmove := get_value_of_full_step hfull hs (i.castAdd m)
    rw [(hzero _).1, add_zero, Problem.get_valuesAt_castAdd] at hmove
    exact hmove.trans (get_onVariables s.value i).symm
  have hmultiplier : (attempt S P s).advanced.active.multiplier = s.active.multiplier := by
    refine vector_ext fun e => ?_
    rw [get_multiplier_of_full_step hfull, (hzero e).2, add_zero]
  have hstatus : (attempt S P s).advanced.active.status = s.active.status := by
    refine vector_ext fun e => ?_
    rw [get_status_of_full_step hfull, hmultiplier]
    exact (hs.admits e).followSign_eq
  have hnext := hs.advanced hP S
  rw [iterate_of_not_isFatal ((hs.isFatal_iff hP).not.mpr hregular)]
  refine Alike.eq ⟨?_, ?_, ?_, kind_stepLimit_of_no_index hfull, rfl, hdone, if_pos hdone,
    fun _ => ⟨stepLimit_of_no_index hfull, hfull⟩⟩ Outcome.noConfusion
  · exact hnext.value.trans ((congrArg P.valuesAt hpoint).trans hs.value.symm)
  · exact congrArg₂ ActiveSet.mk hstatus hmultiplier
  · exact hnext.objective.trans ((congrArg P.objective hpoint).trans hs.objective.symm)

/-- A run that starts balanced, with every held entry on its bound, succeeds where it is. -/
theorem solveFrom_of_balanced (hunit : 0 ≤ unit) (hP : P.Proper) (hH : P.hessian.toMatrix.IsSymm)
    (hS : S.Covers P) (hregular : ¬ (attempt S P (State.start P g)).IsSingular unit)
    (hbalance : ∀ i, P.balance g.point (State.start P g).active.multiplier i = 0)
    (hheld : ∀ e, ((State.start P g).active.status.get e).IsActive →
      (((P.valuesAt g.point).get e : ℝ) : EReal) =
        ((State.start P g).active.status.get e).boundOn (P.lower.get e) (P.upper.get e))
    {budget : ℕ} (hbudget : 0 < budget) :
    let t := solveFrom unit S P g budget
    (t.outcome = .success ∧ t.iteration = 1 ∧ t.length = 1) ∧ t.point = g.point ∧
      t.active.multiplier = (State.start P g).active.multiplier ∧
      ∀ e, t.active.status.get e = (State.start P g).active.status.get e := by
  have hpoint : (State.start P g).point = g.point := P.onVariables_valuesAt _
  have hnext := (State.coherent_start hP g).iterate_of_balanced hunit hP hH hS hregular
    (by rwa [hpoint]) hheld
  intro t
  have hlast : t = iterate unit S P (State.start P g) :=
    solveFrom_eq_iterate (congrArg State.done hnext) hbudget
  rw [hlast, hnext]
  exact ⟨⟨rfl, rfl, rfl⟩, hpoint, rfl, fun _ => rfl⟩

section AboveOne

open Problem

noncomputable def PrimalDual.zero : PrimalDual ℝ 1 0 :=
  ⟨Vector.ofFn fun _ => 0, join (Vector.ofFn fun _ => 0) (Vector.ofFn fun _ => 0)⟩

theorem get_multiplier_zero (e : Fin (1 + 0)) : PrimalDual.zero.multiplier.get e = 0 :=
  (get_join_castAdd _ _ e).trans (get_ofFn _ _)

theorem balance_zero (i : Fin 1) :
    aboveOne.balance PrimalDual.zero.point (State.start aboveOne .zero).active.multiplier i =
      0 := by
  have hcoherent := State.coherent_start proper_aboveOne .zero
  have hpoint : PrimalDual.zero.point.get i = 0 := get_ofFn _ i
  rw [balance_aboveOne, hpoint, (hcoherent.admits _).multiplier_eq_zero
    (get_status_aboveOne get_multiplier_zero _), add_zero]

theorem solveFrom_aboveOne (rule : ColumnOrder) {budget : ℕ} (hbudget : 0 < budget) :
    let t := solveFrom 0 (aboveOne.analyze rule) aboveOne .zero budget
    t.outcome = .success ∧ t.iteration = 1 ∧ t.point = PrimalDual.zero.point := by
  obtain ⟨⟨hsuccess, hiteration, -⟩, hpoint, -⟩ := solveFrom_of_balanced le_rfl proper_aboveOne
    posDef_hessian_aboveOne.isHermitian (covers_analyze aboveOne rule)
    (not_isSingular_aboveOne rule _) balance_zero
    (fun e he => absurd (get_status_aboveOne get_multiplier_zero e) he) hbudget
  exact ⟨hsuccess, hiteration, hpoint⟩

end AboveOne

namespace Solver

variable {solver : Solver n m}

theorem covers_of_accept (hsolver : ∃ h a rule, solver.analysis = analyze h a rule)
    {Q : SizedProblem ℝ EReal} (h : solver.accept Q = .ok P) : solver.analysis.Covers P := by
  obtain ⟨hH, hA⟩ := not_misses_of_accept h
  exact ⟨hsolver, Pattern.not_misses_iff.mp hH, Pattern.not_misses_iff.mp hA⟩

theorem accept_aboveOne (rule : ColumnOrder) (settings : Settings) :
    accept ⟨Problem.aboveOne.analyze rule, settings⟩ ⟨1, 0, Problem.aboveOne, one_pos⟩ =
      .ok Problem.aboveOne := by
  have hS := covers_analyze Problem.aboveOne rule
  exact accept_of_not_misses one_pos (Pattern.not_misses_iff.mpr hS.hessian)
    (Pattern.not_misses_iff.mpr hS.constraints)

theorem exists_converged_aboveOne :
    ∃ solver s, create Problem.aboveOne "min_degree" 1000 false = .ok solver ∧
      (∃ h a rule, solver.analysis = analyze h a rule) ∧
      (solver.solve 0 ⟨1, 0, Problem.aboveOne, one_pos⟩ ⟨none, none, none⟩ []).result = .ok s ∧
      s.outcome = .success ∧ s.point = PrimalDual.zero.point := by
  let solver : Solver 1 0 := ⟨Problem.aboveOne.analyze .minimumDegree, ⟨1000, false, by decide⟩⟩
  have haccept := accept_aboveOne .minimumDegree solver.settings
  obtain ⟨hsuccess, -, hpoint⟩ := solveFrom_aboveOne .minimumDegree solver.settings.budget_pos
  exact ⟨solver, _, rfl, ⟨_, _, _, rfl⟩,
    (result_of_accept haccept rfl).trans (conclude_of_success hsuccess), hsuccess, hpoint⟩

/-- A converged answer is no worse than any feasible point. It is feasible itself exactly when the
entries that it leaves free are within their bounds, as they are when the inequalities held at the
guess. -/
theorem feasible_iff_of_converged (hunit : 0 ≤ unit) (hP : P.Proper)
    (hH : P.hessian.toMatrix.PosSemidef)
    (hsolver : ∃ h a rule, solver.analysis = analyze h a rule) (hn : 0 < n) {guess : GuessData ℝ}
    {options : List (String × SettingValue)}
    (hanswer : (solver.solve unit ⟨n, m, P, hn⟩ guess options).result = .ok s)
    (hsuccess : s.outcome = .success) :
    (∀ y, P.Feasible y → P.objective s.point ≤ P.objective y) ∧
      (P.Feasible s.point ↔ ∀ e, s.active.status.get e = .inactive →
        P.lower.get e ≤ s.value.get e ∧ s.value.get e ≤ P.upper.get e) ∧
      ∀ g, guess.toPrimalDual n m = .ok g → P.InequalitiesHold (P.valuesAt g.point) →
        P.Feasible s.point := by
  obtain ⟨job, hjob, rfl⟩ := eq_solveFrom_of_solve hanswer
  obtain ⟨-, haccept, hguess⟩ := prepare_eq_ok hjob
  obtain ⟨_, _, hproblem⟩ := problem_of_accept haccept
  have hproblem : job.problem = P := hproblem
  rw [hproblem] at haccept hsuccess ⊢
  have hS := covers_of_accept hsolver haccept
  have hsettled := settled_of_success hunit hP hH.isHermitian hS hsuccess
  have hreached := reached_solveFrom unit solver.analysis P job.guess job.settings.budget
  have hcoherent := hreached.coherent hP
  refine ⟨hsettled.objective_le hH, hsettled.feasible_iff hcoherent, fun g hg hvalue => ?_⟩
  obtain rfl : job.guess = g := Except.ok.inj (hguess.symm.trans hg)
  exact hsettled.feasible hcoherent (hreached.inequalitiesHold hunit hP hS hvalue)

theorem feasible_iff_of_converged_aboveOne :
    Problem.aboveOne.Proper ∧ Problem.aboveOne.hessian.toMatrix.PosSemidef ∧
      ∃ solver s, create Problem.aboveOne "min_degree" 1000 false = .ok solver ∧
        (solver.solve 0 ⟨1, 0, Problem.aboveOne, one_pos⟩ ⟨none, none, none⟩ []).result = .ok s ∧
        s.outcome = .success ∧
        ∀ y, Problem.aboveOne.Feasible y →
          Problem.aboveOne.objective s.point ≤ Problem.aboveOne.objective y := by
  obtain ⟨solver, s, hsolver, hanalyzed, hanswer, hsuccess, -⟩ := exists_converged_aboveOne
  have hH := Problem.posDef_hessian_aboveOne.posSemidef
  have hconverged := feasible_iff_of_converged le_rfl Problem.proper_aboveOne hH hanalyzed one_pos
    hanswer hsuccess
  exact ⟨Problem.proper_aboveOne, hH, solver, s, hsolver, hanswer, hsuccess, hconverged.1⟩

/-- A strictly convex problem without a guess, and a converged answer below the bound. -/
theorem not_feasible_of_converged_aboveOne :
    Problem.aboveOne.Proper ∧ Problem.aboveOne.hessian.toMatrix.PosDef ∧
      ∃ solver s, create Problem.aboveOne "min_degree" 1000 false = .ok solver ∧
        (solver.solve 0 ⟨1, 0, Problem.aboveOne, one_pos⟩ ⟨none, none, none⟩ []).result = .ok s ∧
        s.outcome = .success ∧ ¬ Problem.aboveOne.Feasible s.point := by
  obtain ⟨solver, s, hsolver, -, hanswer, hsuccess, hpoint⟩ := exists_converged_aboveOne
  refine ⟨Problem.proper_aboveOne, Problem.posDef_hessian_aboveOne, solver, s, hsolver, hanswer,
    hsuccess, fun hfeasible => ?_⟩
  have hvalue : (Problem.aboveOne.valuesAt s.point).get 0 = 0 := by
    rw [hpoint]
    exact (Problem.get_valuesAt_castAdd Problem.aboveOne _ 0).trans (get_ofFn _ _)
  have hlower := (hfeasible 0).1
  rw [hvalue, (Problem.bounds_aboveOne 0).1] at hlower
  exact absurd hlower (by exact_mod_cast one_pos.not_ge)

end Solver

end QuadraticProgram
