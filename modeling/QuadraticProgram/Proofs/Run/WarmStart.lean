import QuadraticProgram.Proofs.Run.Converged

/-! # Starting again from an answer

A start sees the point and the multipliers of an answer and nothing of its statuses. A multiplier
that is not zero gives its entry the status it had. Without one an inequality starts free, and an
equality, which is on its bound, on the lower side. So the new start has the multipliers of the
answer, is as balanced, and holds entries only on their bounds. Its step is a full one that goes
nowhere.
-/
namespace QuadraticProgram

variable {n m : ℕ} {unit : ℝ} {S S' : Analysis n m} {P : Problem ℝ EReal n m}
variable {g : PrimalDual ℝ n m} {s : State ℝ n m} {e : Fin (n + m)}

namespace State

theorem Coherent.get_status_restart (hP : P.Proper) (hs : s.Coherent P)
    (hne : s.active.multiplier.get e ≠ 0) :
    (start P s.primalDual).active.status.get e = s.active.status.get e := by
  rw [get_status_start]
  exact (hs.admits e).seed_eq (hP e).1 (hP e).2 hne _

theorem Coherent.get_multiplier_restart (hP : P.Proper) (hs : s.Coherent P) (e : Fin (n + m)) :
    (start P s.primalDual).active.multiplier.get e = s.active.multiplier.get e := by
  have hmultiplier : s.primalDual.multiplier = s.active.multiplier := rfl
  rw [get_multiplier_start, hmultiplier]
  by_cases hzero : s.active.multiplier.get e = 0
  · rw [hzero, ite_self]
  · rw [hs.get_status_restart hP hzero,
      if_neg fun hfree => hzero ((hs.admits e).multiplier_eq_zero hfree)]

namespace Settled

variable (hcoherent : s.Coherent P) (hs : s.Settled P)
include hcoherent hs

theorem value_of_isEquality (heq : P.IsEquality e) :
    (((P.valuesAt s.point).get e : ℝ) : EReal) = P.lower.get e := by
  have hbounds := Problem.isEquality_iff.mp heq
  rw [hs.held e ((hcoherent.admits e).isActive hbounds), Status.boundOn_of_eq hbounds]

theorem get_status_restart_of_isEquality (hP : P.Proper) (heq : P.IsEquality e)
    (hzero : s.active.multiplier.get e = 0) :
    (start P s.primalDual).active.status.get e = .lower := by
  have hbounds := Problem.isEquality_iff.mp heq
  have hvalue := hs.value_of_isEquality hcoherent heq
  have hmultiplier : s.primalDual.multiplier.get e = 0 := hzero
  rw [get_status_start, hmultiplier]
  exact Status.seed_zero_of_eq (hP e).1 (hP e).2 hbounds (hvalue.trans hbounds)

theorem held_restart (hP : P.Proper)
    (he : ((start P s.primalDual).active.status.get e).IsActive) :
    (((P.valuesAt s.point).get e : ℝ) : EReal) =
      ((start P s.primalDual).active.status.get e).boundOn (P.lower.get e) (P.upper.get e) := by
  by_cases heq : P.IsEquality e
  · rw [hs.value_of_isEquality hcoherent heq,
      Status.boundOn_of_eq (Problem.isEquality_iff.mp heq)]
  have hne : s.active.multiplier.get e ≠ 0 := fun hzero =>
    he (get_status_start_of_multiplier_eq_zero (fun h => heq (Problem.isEquality_iff.mpr h)) hzero)
  rw [hcoherent.get_status_restart hP hne] at he ⊢
  exact hs.held e he

end Settled

end State

/-- Solving again from an answer takes one full step and returns the same point, objective and
multipliers, unless its first system is singular. Entries with a multiplier keep their status. -/
theorem solveFrom_restart (hunit : 0 ≤ unit) (hP : P.Proper) (hH : P.hessian.toMatrix.IsSymm)
    (hS : S.Covers P) (hS' : S'.Covers P) {budget : ℕ}
    (hsuccess : (solveFrom unit S P g budget).outcome = .success)
    (hregular : ¬ (attempt S' P
      (State.start P (solveFrom unit S P g budget).primalDual)).IsSingular unit)
    {again : ℕ} (hagain : 0 < again) :
    let s := solveFrom unit S P g budget
    let t := solveFrom unit S' P s.primalDual again
    (t.outcome = .success ∧ t.iteration = 1 ∧ t.length = 1) ∧
      (t.point = s.point ∧ t.objective = s.objective ∧
        t.active.multiplier = s.active.multiplier) ∧
      ∀ e, (s.active.multiplier.get e ≠ 0 → t.active.status.get e = s.active.status.get e) ∧
        (s.active.multiplier.get e = 0 → ¬ P.IsEquality e →
          t.active.status.get e = .inactive) ∧
        (s.active.multiplier.get e = 0 → P.IsEquality e → t.active.status.get e = .lower) := by
  intro s t
  have hcoherent : s.Coherent P := (reached_solveFrom unit S P g budget).coherent hP
  have hs : s.Settled P := settled_of_success hunit hP hH hS hsuccess
  have hmultiplier : (State.start P s.primalDual).active.multiplier = s.active.multiplier :=
    vector_ext fun e => hcoherent.get_multiplier_restart hP e
  have hbalance : ∀ i, P.balance s.primalDual.point
      (State.start P s.primalDual).active.multiplier i = 0 := by
    rw [hmultiplier]
    exact hs.balance
  obtain ⟨hstep, hpoint, hkept, hstatus⟩ := solveFrom_of_balanced hunit hP hH hS' hregular hbalance
    (fun e he => hs.held_restart hcoherent hP he) hagain
  have ht : t.Coherent P := (reached_solveFrom unit S' P s.primalDual again).coherent hP
  have hpoint : t.point = s.point := hpoint
  have hobjective : t.objective = s.objective := by
    rw [ht.objective, hcoherent.objective, hpoint]
  refine ⟨hstep, ⟨hpoint, hobjective, hkept.trans hmultiplier⟩, fun e => ⟨?_, ?_, ?_⟩⟩
  · exact fun hne => (hstatus e).trans (hcoherent.get_status_restart hP hne)
  · intro hzero hne
    refine (hstatus e).trans (State.get_status_start_of_multiplier_eq_zero ?_ hzero)
    exact fun h => hne (Problem.isEquality_iff.mpr h)
  · exact fun hzero heq =>
      (hstatus e).trans (hs.get_status_restart_of_isEquality hcoherent hP heq hzero)

theorem solveFrom_restart_halfLine :
    let S := Problem.halfLine.analyze .natural
    let s := solveFrom 0 S Problem.halfLine .origin 1
    let t := solveFrom 0 S Problem.halfLine s.primalDual 3
    Problem.halfLine.Proper ∧ Problem.halfLine.hessian.toMatrix.IsSymm ∧
      S.Covers Problem.halfLine ∧ s.outcome = .success ∧
      ¬ (attempt S Problem.halfLine (State.start Problem.halfLine s.primalDual)).IsSingular 0 ∧
      t.outcome = .success ∧ t.iteration = 1 ∧ t.point = s.point ∧
      t.active.status.get (Fin.castAdd 1 0) = .inactive := by
  intro S s t
  have hP := Problem.proper_halfLine
  have hS := covers_analyze Problem.halfLine .natural
  have hsuccess : s.outcome = .success := outcome_halfLine .natural
  have hlast : s = (attempt S Problem.halfLine (State.start Problem.halfLine .origin)).advanced :=
    iterate_of_not_isFatal (not_isFatal_halfLine .natural)
  have hfree : s.active.multiplier.get (Fin.castAdd 1 0) = 0 := by
    have hcoherent : s.Coherent Problem.halfLine := (reached_solveFrom 0 S _ _ 1).coherent hP
    refine (hcoherent.admits _).multiplier_eq_zero ?_
    rw [hlast, State.Coherent.get_status_of_full_step (index_halfLine .natural),
      Status.followSign_of_ne (Problem.lower_ne_upper_halfLine_castAdd 0)]
    exact get_status_halfLine_castAdd 0
  have hregular :
      ¬ (attempt S Problem.halfLine (State.start Problem.halfLine s.primalDual)).IsSingular 0 :=
    Problem.not_isSingular_attempt_of_linearIndependent Problem.posDef_hessian_halfLine hS
      (linearIndepOn_halfLine hfree)
  have hagain : 0 < 3 := three_pos
  obtain ⟨⟨houtcome, hiteration, -⟩, ⟨hpoint, -⟩, hstatus⟩ := solveFrom_restart le_rfl hP
    Problem.isSymm_hessian_halfLine hS hS hsuccess hregular hagain
  have hinactive := (hstatus (Fin.castAdd 1 0)).2.1 hfree
    fun heq => Problem.lower_ne_upper_halfLine_castAdd 0 (Problem.isEquality_iff.mp heq)
  exact ⟨hP, Problem.isSymm_hessian_halfLine, hS, hsuccess, hregular, houtcome, hiteration, hpoint,
    hinactive⟩

end QuadraticProgram
