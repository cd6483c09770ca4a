import QuadraticProgram.Proofs.Newton
import QuadraticProgram.Proofs.Run.Reachable
import QuadraticProgram.Proofs.Solver
import QuadraticProgram.Proofs.StepLength

/-! # What every state keeps

The values and the objective belong to the point, and every status fits its multiplier. Seeding
establishes this and an iteration preserves it, whatever its system gives: the proposals of fitting
statuses are valid, so the step lies in `[0, 1]` and no multiplier changes its side.
-/
namespace QuadraticProgram

variable {n m : ℕ} {unit : ℝ} {S : Analysis n m} {P : Problem ℝ EReal n m}
variable {g : PrimalDual ℝ n m} {s : State ℝ n m}

namespace Problem

/-- No bound leaves an entry without a finite value. -/
def Proper (P : Problem ℝ EReal n m) : Prop := ∀ e, P.lower.get e ≠ ⊤ ∧ P.upper.get e ≠ ⊥

section ActiveAfter

variable {α β : Type} [Scalar α] [Bound α β] (P : Problem α β n m) (s : ActiveSet α (n + m))
  (d : Vector α (n + m)) (limit : StepLimit α (n + m)) (e : Fin (n + m))

@[simp] theorem get_multiplier_activeAfter :
    (P.activeAfter s d limit).multiplier.get e =
      if limit.index = some e then 0 else s.multiplier.get e + limit.length * d.get e := by
  simp [activeAfter]

@[simp] theorem get_status_activeAfter :
    (P.activeAfter s d limit).status.get e =
      Status.followSign (P.lower.get e) (P.upper.get e)
        ((P.activeAfter s d limit).multiplier.get e)
        (if limit.index = some e then Status.afterBlocking limit.kind else s.status.get e) := by
  simp [activeAfter]

end ActiveAfter

end Problem

theorem active_advanced {α β : Type} [Scalar α] [Bound α β] (S : Analysis n m)
    (P : Problem α β n m) (s : State α n m) :
    (attempt S P s).advanced.active =
      P.activeAfter s.active (attempt S P s).direction.multiplier (attempt S P s).limit := rfl

section Attempt

variable (S P s)

theorem onVariables_direction :
    onVariables (attempt S P s).direction.value = onVariables (attempt S P s).solution :=
  P.onVariables_valuesAt _

theorem point_advanced :
    (attempt S P s).advanced.point =
      P.pointAfter s.point (onVariables (attempt S P s).solution) (attempt S P s).limit := by
  rw [← onVariables_direction]
  exact P.onVariables_valuesAt _

theorem get_multiplier_direction_of_inactive {e : Fin (n + m)}
    (he : s.active.status.get e = .inactive) :
    (attempt S P s).direction.multiplier.get e = 0 :=
  Problem.get_multiplier_direction_of_inactive he

end Attempt

/-- The values and the objective are those of the point, and the statuses fit the multipliers. -/
structure State.Coherent (P : Problem ℝ EReal n m) (s : State ℝ n m) : Prop where
  value : s.value = P.valuesAt s.point
  objective : s.objective = P.objective s.point
  admits : ∀ e, (s.active.status.get e).Admits (P.lower.get e) (P.upper.get e)
    (s.active.multiplier.get e)

namespace State

theorem get_status_start (P : Problem ℝ EReal n m) (g : PrimalDual ℝ n m) (e : Fin (n + m)) :
    (start P g).active.status.get e = Status.seed (P.lower.get e) (P.upper.get e)
      ((P.valuesAt g.point).get e) (g.multiplier.get e) :=
  ActiveSet.get_status_seed _ _ _ _ e

theorem get_multiplier_start (P : Problem ℝ EReal n m) (g : PrimalDual ℝ n m) (e : Fin (n + m)) :
    (start P g).active.multiplier.get e =
      if (start P g).active.status.get e = .inactive then 0 else g.multiplier.get e := by
  rw [get_status_start]
  exact ActiveSet.get_multiplier_seed _ _ _ _ e

/-- An inequality without a multiplier starts free. -/
theorem get_status_start_of_multiplier_eq_zero {e : Fin (n + m)}
    (hne : P.lower.get e ≠ P.upper.get e) (hzero : g.multiplier.get e = 0) :
    (start P g).active.status.get e = .inactive := by
  rw [get_status_start, hzero]
  exact Status.seed_zero_of_ne hne _

theorem coherent_start (hP : P.Proper) (g : PrimalDual ℝ n m) : (start P g).Coherent P where
  value := congrArg P.valuesAt (P.onVariables_valuesAt g.point).symm
  objective := congrArg P.objective (P.onVariables_valuesAt g.point).symm
  admits e := by
    rw [get_multiplier_start, get_status_start]
    exact Status.admits_seed (hP e).1 (hP e).2 _ _

/-- The entry that limits a step made the proposal that the step takes. -/
theorem proposes_of_index {S : Analysis n m} {e : Fin (n + m)} (hlb : P.lower.get e ≠ ⊤)
    (hub : P.upper.get e ≠ ⊥) (he : (attempt S P s).limit.index = some e) :
    ∃ c, Proposes (P.lower.get e) (P.upper.get e) (s.value.get e)
        ((attempt S P s).direction.value.get e) (s.active.multiplier.get e)
        ((attempt S P s).direction.multiplier.get e) (s.active.status.get e) c ∧
      (attempt S P s).limit.length = c.length ∧ (attempt S P s).limit.kind = some c.kind := by
  obtain ⟨c, hc, hlength, hkind⟩ := stepLimit_of_index he
  exact ⟨c, (get_candidates_eq_some_iff hlb hub).mp hc, hlength, hkind⟩

namespace Coherent

theorem proposes_of_index (hP : P.Proper) {S : Analysis n m} {e : Fin (n + m)}
    (he : (attempt S P s).limit.index = some e) :
    ∃ c, Proposes (P.lower.get e) (P.upper.get e) (s.value.get e)
        ((attempt S P s).direction.value.get e) (s.active.multiplier.get e)
        ((attempt S P s).direction.multiplier.get e) (s.active.status.get e) c ∧
      (attempt S P s).limit.length = c.length ∧ (attempt S P s).limit.kind = some c.kind :=
  State.proposes_of_index (hP e).1 (hP e).2 he

/-- In a coherent state every proposal is valid, along any direction. -/
theorem invalid_eq_none (hP : P.Proper) (hs : s.Coherent P) (S : Analysis n m) :
    (attempt S P s).limit.invalid = none :=
  invalid_stepLimit_eq_none_iff.mpr fun e _ hc =>
    ((get_candidates_eq_some_iff (hP e).1 (hP e).2).mp hc).isValid (hs.admits e)

theorem isFatal_iff (hP : P.Proper) (hs : s.Coherent P) :
    (attempt S P s).IsFatal unit ↔ (attempt S P s).IsSingular unit :=
  or_iff_left fun hinvalid => hinvalid (hs.invalid_eq_none hP S)

theorem length_nonneg (hP : P.Proper) (hs : s.Coherent P) (S : Analysis n m) :
    0 ≤ (attempt S P s).limit.length :=
  length_stepLimit_nonneg (hs.invalid_eq_none hP S)

/-- The entry that limits the step loses its multiplier, and the others keep theirs on its side. -/
theorem admits_activeAfter (hP : P.Proper) (hs : s.Coherent P) (S : Analysis n m)
    (e : Fin (n + m)) :
    ((attempt S P s).advanced.active.status.get e).Admits (P.lower.get e) (P.upper.get e)
      ((attempt S P s).advanced.active.multiplier.get e) := by
  let d := (attempt S P s).direction
  rw [active_advanced, Problem.get_status_activeAfter, Problem.get_multiplier_activeAfter]
  by_cases hindex : (attempt S P s).limit.index = some e
  · obtain ⟨c, hproposes, -, hkind⟩ := proposes_of_index hP hindex
    rw [if_pos hindex, if_pos hindex, hkind, Status.followSign_zero]
    exact hproposes.admits_afterBlocking (hs.admits e)
  · have hshort : ∀ c, candidate? (P.lower.get e) (P.upper.get e) (s.value.get e) (d.value.get e)
        (s.active.status.get e) (s.active.multiplier.get e) (d.multiplier.get e) = some c →
        (attempt S P s).limit.length ≤ c.length :=
      fun c hc => length_stepLimit_le ((get_candidates _ _ _ _ _ e).trans hc)
    rw [if_neg hindex, if_neg hindex]
    exact admits_followSign_move (hP e).1 (hP e).2 (hs.admits e)
      (get_multiplier_direction_of_inactive S P s)
      (hs.length_nonneg hP S) (length_stepLimit_le_one _) hshort

theorem advanced (hP : P.Proper) (hs : s.Coherent P) (S : Analysis n m) :
    (attempt S P s).advanced.Coherent P where
  value := congrArg P.valuesAt (P.onVariables_valuesAt _).symm
  objective := congrArg P.objective (P.onVariables_valuesAt _).symm
  admits := hs.admits_activeAfter hP S

theorem iterate (hP : P.Proper) (hs : s.Coherent P) (unit : ℝ) (S : Analysis n m) :
    (iterate unit S P s).Coherent P :=
  iterate_cases (motive := Coherent P) (fun _ _ _ _ => ⟨hs.value, hs.objective, hs.admits⟩)
    fun _ => hs.advanced hP S

end Coherent

end State

theorem solves_of_not_isFatal (hunit : 0 ≤ unit) (hS : S.Covers P)
    (h : ¬ (attempt S P s).IsFatal unit) :
    S.Solves P s.value s.active (attempt S P s).solution :=
  solves_attempt hunit hS fun hsingular => h (Or.inl hsingular)

/-- The program `½ x²` for `0 ≤ x` and `x = 1`, with the equality as a row. -/
noncomputable def Problem.halfLine : Problem ℝ EReal 1 1 where
  hessian := Mat.ofFn fun _ _ => 1
  linear := Vector.ofFn fun _ => 0
  constraints := Mat.ofFn fun _ _ => 1
  lower := join (Vector.ofFn fun _ => 0) (Vector.ofFn fun _ => 1)
  upper := join (Vector.ofFn fun _ => ⊤) (Vector.ofFn fun _ => 1)
  ordered e := by
    refine decide_eq_false (not_lt.mpr ?_)
    refine Fin.addCases (fun i => ?_) (fun j => ?_) e
    · rw [get_join_castAdd, get_join_castAdd, get_ofFn, get_ofFn]
      exact le_top
    · rw [get_join_natAdd, get_join_natAdd]

theorem Problem.bounds_halfLine_castAdd (i : Fin 1) :
    halfLine.lower.get (i.castAdd 1) = 0 ∧ halfLine.upper.get (i.castAdd 1) = ⊤ := by
  constructor
  · rw [halfLine, get_join_castAdd, get_ofFn]
  · rw [halfLine, get_join_castAdd, get_ofFn]

theorem Problem.bounds_halfLine_natAdd (j : Fin 1) :
    halfLine.lower.get (j.natAdd 1) = 1 ∧ halfLine.upper.get (j.natAdd 1) = 1 := by
  constructor
  · rw [halfLine, get_join_natAdd, get_ofFn]
  · rw [halfLine, get_join_natAdd, get_ofFn]

theorem Problem.equality_halfLine (j : Fin 1) :
    halfLine.lower.get (j.natAdd 1) = halfLine.upper.get (j.natAdd 1) := by
  rw [(bounds_halfLine_natAdd j).1, (bounds_halfLine_natAdd j).2]

theorem Problem.proper_halfLine : halfLine.Proper := by
  intro e
  refine Fin.addCases (fun i => ?_) (fun j => ?_) e
  · rw [(bounds_halfLine_castAdd i).1, (bounds_halfLine_castAdd i).2]
    exact ⟨EReal.zero_ne_top, bot_ne_top.symm⟩
  · rw [(bounds_halfLine_natAdd j).1, (bounds_halfLine_natAdd j).2]
    exact ⟨EReal.coe_ne_top 1, EReal.coe_ne_bot 1⟩

noncomputable def PrimalDual.origin : PrimalDual ℝ 1 1 :=
  ⟨Vector.ofFn fun _ => 0, Vector.ofFn fun _ => 0⟩

theorem Problem.isSymm_hessian_halfLine : halfLine.hessian.toMatrix.IsSymm :=
  Matrix.IsSymm.ext fun i j => by rw [Subsingleton.elim i j]

/-- The program `½ x²` for `1 ≤ x`, without rows. -/
noncomputable def Problem.aboveOne : Problem ℝ EReal 1 0 where
  hessian := Mat.ofFn fun _ _ => 1
  linear := Vector.ofFn fun _ => 0
  constraints := Mat.ofFn fun _ _ => 0
  lower := Vector.ofFn fun _ => 1
  upper := Vector.ofFn fun _ => ⊤
  ordered e := by
    refine decide_eq_false (not_lt.mpr ?_)
    rw [get_ofFn, get_ofFn]
    exact le_top

theorem Problem.bounds_aboveOne (e : Fin (1 + 0)) :
    aboveOne.lower.get e = 1 ∧ aboveOne.upper.get e = ⊤ := ⟨get_ofFn _ _, get_ofFn _ _⟩

theorem Problem.lower_ne_upper_aboveOne (e : Fin (1 + 0)) :
    aboveOne.lower.get e ≠ aboveOne.upper.get e := by
  rw [(bounds_aboveOne e).1, (bounds_aboveOne e).2]
  exact EReal.coe_ne_top 1

theorem Problem.proper_aboveOne : aboveOne.Proper := by
  intro e
  rw [(bounds_aboveOne e).1, (bounds_aboveOne e).2]
  exact ⟨EReal.coe_ne_top 1, bot_ne_top.symm⟩

namespace Reached

theorem coherent (hP : P.Proper) (hs : Reached unit S P g s) : s.Coherent P :=
  hs.of_preserved (State.coherent_start hP g) fun _ ht => ht.iterate hP unit S

/-- What iterations preserve in coherent states holds of all reached states. -/
theorem of_preserved_of_coherent (hP : P.Proper) {motive : State ℝ n m → Prop}
    (hstart : motive (State.start P g))
    (hpreserved : ∀ t : State ℝ n m, t.Coherent P → motive t →
      motive (QuadraticProgram.iterate unit S P t))
    (hs : Reached unit S P g s) : motive s := by
  induction hs with
  | start => exact hstart
  | iterate ht ih => exact hpreserved _ (ht.coherent hP) ih

/-- What a reached state says of every entry. Equalities are held, on the side of their
multiplier. -/
theorem status_fits (hP : P.Proper) (hs : Reached unit S P g s) :
    s.value = P.valuesAt s.point ∧ s.objective = P.objective s.point ∧
      ∀ e, (s.active.status.get e = .lower ∨ s.active.status.get e = .inactive ∨
          s.active.status.get e = .upper) ∧
        (s.active.status.get e = .inactive → s.active.multiplier.get e = 0) ∧
        (s.active.status.get e = .lower → s.active.multiplier.get e ≤ 0) ∧
        (s.active.status.get e = .upper → 0 ≤ s.active.multiplier.get e) ∧
        (P.lower.get e = P.upper.get e → (s.active.status.get e).IsActive) := by
  have hcoherent := hs.coherent hP
  refine ⟨hcoherent.value, hcoherent.objective, fun e => ?_⟩
  have hfits := hcoherent.admits e
  refine ⟨hfits.eq_lower_or_inactive_or_upper, hfits.multiplier_eq_zero, ?_, ?_, hfits.isActive⟩
  · intro hlower
    rw [hlower] at hfits
    exact hfits.1
  · intro hupper
    rw [hupper] at hfits
    exact hfits.1

theorem status_fits_halfLine :
    let S := Problem.halfLine.analyze .natural
    let s := QuadraticProgram.iterate 0 S Problem.halfLine (State.start Problem.halfLine .origin)
    Problem.halfLine.Proper ∧ Reached 0 S Problem.halfLine .origin s ∧
      s.value = Problem.halfLine.valuesAt s.point ∧
      (s.active.status.get (Fin.natAdd 1 0)).IsActive := by
  intro S s
  have hs : Reached 0 S Problem.halfLine .origin s := .iterate .start
  have hfits := status_fits Problem.proper_halfLine hs
  have hactive := (hfits.2.2 (Fin.natAdd 1 0)).2.2.2.2 (Problem.equality_halfLine 0)
  exact ⟨Problem.proper_halfLine, hs, hfits.1, hactive⟩

theorem outcome_ne_invalidStep (hP : P.Proper) (hs : Reached unit S P g s) :
    s.outcome ≠ .invalidStep := by
  intro houtcome
  rcases hs.outcome_cases with h | h | ⟨t, ht, hfails⟩
  · exact Outcome.noConfusion (houtcome.symm.trans h)
  · exact Outcome.noConfusion (houtcome.symm.trans h)
  · rw [houtcome] at hfails
    exact hfails ((ht.coherent hP).invalid_eq_none hP S)

/-- Every proposal along a run lies in `[0, 1]`, so neither a run nor a solve ends in an invalid
step. -/
theorem step_length_valid (hP : P.Proper) (unit : ℝ) (S : Analysis n m) (g : PrimalDual ℝ n m) :
    (∀ s, Reached unit S P g s → (attempt S P s).limit.invalid = none ∧
        0 ≤ (attempt S P s).limit.length ∧ (attempt S P s).limit.length ≤ 1) ∧
      (∀ budget, (solveFrom unit S P g budget).outcome ≠ .invalidStep) ∧
      ∀ (hn : 0 < n) {n' m' : ℕ} (solver : Solver n' m') (guess : GuessData ℝ)
        (options : List (String × SettingValue)) (iteration index : Int) (length : ℝ),
        (solver.solve unit ⟨n, m, P, hn⟩ guess options).result ≠
          .error (.run (.invalidStep iteration index length)) := by
  refine ⟨fun s hs => ?_, fun budget => ?_, ?_⟩
  · have hcoherent := hs.coherent hP
    exact ⟨hcoherent.invalid_eq_none hP S, hcoherent.length_nonneg hP S,
      length_stepLimit_le_one _⟩
  · exact (reached_solveFrom unit S P g budget).outcome_ne_invalidStep hP
  · intro hn n' m' solver guess options iteration index length h
    obtain ⟨job, hjob, hconclude⟩ := Solver.conclude_of_solve h
    obtain ⟨rfl, rfl, hproblem⟩ := Solver.problem_of_accept (Solver.prepare_eq_ok hjob).2.1
    have hproper : job.problem.Proper := by
      rw [hproblem]
      exact hP
    exact (reached_solveFrom unit _ _ _ _).outcome_ne_invalidStep hproper
      (Solver.outcome_of_conclude hconclude)

theorem step_length_valid_halfLine :
    let S := Problem.halfLine.analyze .minimumDegree
    Problem.halfLine.Proper ∧
      (attempt S Problem.halfLine (State.start Problem.halfLine .origin)).limit.invalid = none ∧
      (solveFrom 0 S Problem.halfLine .origin 3).outcome ≠ .invalidStep := by
  intro S
  have hvalid := step_length_valid Problem.proper_halfLine 0 S .origin
  exact ⟨Problem.proper_halfLine, (hvalid.1 _ .start).1, hvalid.2.1 3⟩

end Reached

end QuadraticProgram
