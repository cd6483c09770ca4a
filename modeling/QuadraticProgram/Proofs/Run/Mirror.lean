import QuadraticProgram.Proofs.Mirror
import QuadraticProgram.Proofs.Run.Lockstep
import QuadraticProgram.Proofs.Run.Success

/-! # The run on the mirrored problem

Two states are images of each other when values and multipliers have opposite signs and the
inequalities are held on opposite sides. The same entries are held, so both iterations factorize one
matrix; the right-hand side, the step and the proposals change their signs with the states. An
equality may be held on the same side in both, but no side of it is looked at except for its bound,
which both sides share. That needs statuses that fit, which every state of a run has.
-/
namespace QuadraticProgram

structure ActiveSet.Mirrors {n m : ℕ} (P : Problem ℝ EReal n m) (s t : ActiveSet ℝ (n + m)) :
    Prop where
  multiplier : t.multiplier = -s.multiplier
  status : ∀ e, ¬ P.IsEquality e → t.status.get e = (s.status.get e).mirror
  equality : ∀ e, P.IsEquality e → (s.status.get e).IsActive ∧ (t.status.get e).IsActive

namespace ActiveSet.Mirrors

variable {n m : ℕ} {P : Problem ℝ EReal n m} {s t : ActiveSet ℝ (n + m)} (hst : s.Mirrors P t)
variable (value z : Vector ℝ (n + m))
include hst

theorem get_multiplier (e : Fin (n + m)) : t.multiplier.get e = -s.multiplier.get e := by
  rw [hst.multiplier, get_neg]

theorem isActive_iff (e : Fin (n + m)) : (t.status.get e).IsActive ↔ (s.status.get e).IsActive :=
  Status.isActive_iff_of_mirror (hst.equality e) (hst.status e)

theorem heldAt_eq {e : Fin (n + m)}
    (hs : (s.status.get e).Admits (P.lower.get e) (P.upper.get e) (s.multiplier.get e))
    (ht : (t.status.get e).Admits (P.mirror.lower.get e) (P.mirror.upper.get e)
      (t.multiplier.get e)) :
    ((t.status.get e).heldAt (P.mirror.lower.get e) (P.mirror.upper.get e) : ℝ) =
      -(s.status.get e).heldAt (P.lower.get e) (P.upper.get e) := by
  by_cases heq : P.IsEquality e
  · have hbounds := (same_ereal _ _).mp heq
    have himages := (same_ereal _ _).mp (P.isEquality_mirror_iff.mpr heq)
    rw [hs.heldAt_of_eq hbounds, ht.heldAt_of_eq himages, Problem.get_lower_mirror,
      EReal.toReal_neg_eq, hbounds]
  · rw [hst.status e heq, Problem.get_lower_mirror, Problem.get_upper_mirror,
      Status.heldAt_mirror]

theorem rescales : s.Rescales (-1) t :=
  ⟨fun e => (hst.get_multiplier e).trans (neg_one_mul _).symm, hst.isActive_iff⟩

theorem rightHandSide_eq
    (hs : ∀ e, (s.status.get e).Admits (P.lower.get e) (P.upper.get e) (s.multiplier.get e))
    (ht : ∀ e, (t.status.get e).Admits (P.mirror.lower.get e) (P.mirror.upper.get e)
      (t.multiplier.get e)) :
    P.mirror.rightHandSide (-value) t = -P.rightHandSide value s := by
  apply vector_ext
  intro e
  rw [P.rescales_mirror.rightHandSide hst.rescales (get_neg_eq_smul value) (fun e _ => ?_),
    ite_self, get_neg, neg_one_mul]
  rw [hst.heldAt_eq (hs e) (ht e), neg_one_mul]

theorem direction_eq (e : Fin (n + m)) :
    (P.mirror.direction (-value) t (-z)).value.get e = -(P.direction value s z).value.get e ∧
      (P.mirror.direction (-value) t (-z)).multiplier.get e =
        -(P.direction value s z).multiplier.get e := by
  have hx : (onVariables (-z)).get = (-1 : ℝ) • (onVariables z).get := by
    rw [onVariables_neg, get_neg_eq_smul]
  have hy : (onRows (-z)).get = (-1 : ℝ) • (onRows z).get := by
    rw [onRows_neg, get_neg_eq_smul]
  have hdirection := P.rescales_mirror.direction hst.rescales hx hy (get_neg_eq_smul value) e
  rwa [neg_one_mul, neg_one_mul] at hdirection

theorem candidates_eq (hP : P.Proper) (e : Fin (n + m)) :
    (candidates P.mirror.lower P.mirror.upper (-value) t
        (P.mirror.direction (-value) t (-z))).get e =
      ((candidates P.lower P.upper value s (P.direction value s z)).get e).map
        Candidate.mirror := by
  obtain ⟨hvalue, hmultiplier⟩ := hst.direction_eq value z e
  rw [get_candidates, get_candidates, hvalue, hmultiplier, get_neg, hst.get_multiplier,
    Problem.get_lower_mirror, Problem.get_upper_mirror]
  by_cases heq : P.IsEquality e
  · have hbounds := (same_ereal _ _).mp heq
    have himages : -P.upper.get e = -P.lower.get e := by rw [hbounds]
    obtain ⟨hs, ht⟩ := hst.equality e heq
    rw [candidate?_of_eq hbounds hs, candidate?_of_eq himages ht]
    rfl
  · rw [hst.status e heq]
    exact candidate?_mirror (hP e).1 (hP e).2

theorem activeAfter {d d' : Vector ℝ (n + m)} {limit image : StepLimit ℝ (n + m)}
    (hd : ∀ e, d'.get e = -d.get e) (hlimit : limit.Mirrors image)
    (hequality : ∀ e, P.IsEquality e →
      ((P.activeAfter s d limit).status.get e).IsActive ∧
        ((P.mirror.activeAfter t d' image).status.get e).IsActive) :
    (P.activeAfter s d limit).Mirrors P (P.mirror.activeAfter t d' image) where
  multiplier := by
    apply vector_ext
    intro e
    rw [get_neg, Problem.get_multiplier_activeAfter, Problem.get_multiplier_activeAfter,
      hlimit.index, hlimit.length, hd, hst.get_multiplier]
    split_ifs
    · exact neg_zero.symm
    · ring
  status e hne := by
    have hbounds : P.lower.get e ≠ P.upper.get e := fun h => hne ((same_ereal _ _).mpr h)
    have himages : P.mirror.lower.get e ≠ P.mirror.upper.get e := fun h =>
      hne (P.isEquality_mirror_iff.mp ((same_ereal _ _).mpr h))
    rw [Problem.get_status_activeAfter, Problem.get_status_activeAfter,
      Status.followSign_of_ne hbounds, Status.followSign_of_ne himages, hlimit.index, hlimit.kind,
      hst.status e hne, Status.afterBlocking_mirror, apply_ite Status.mirror]
  equality := hequality

end ActiveSet.Mirrors

/-- The states are images of each other. The length that a singular iteration reports is left
out. -/
structure State.Mirrors {n m : ℕ} (P : Problem ℝ EReal n m) (s t : State ℝ n m) : Prop where
  value : t.value = -s.value
  active : s.active.Mirrors P t.active
  objective : t.objective = s.objective
  index : t.index = s.index
  kind : t.kind = s.kind.map Blocking.mirror
  iteration : t.iteration = s.iteration
  done : t.done = s.done
  outcome : t.outcome = s.outcome
  length : s.outcome ≠ .singular → t.length = s.length

noncomputable def PrimalDual.mirror {n m : ℕ} (g : PrimalDual ℝ n m) : PrimalDual ℝ n m :=
  ⟨-g.point, -g.multiplier⟩

variable {n m : ℕ} {P : Problem ℝ EReal n m} {s t : State ℝ n m}

theorem Problem.Proper.mirror (hP : P.Proper) : P.mirror.Proper := by
  intro e
  rw [get_lower_mirror, get_upper_mirror]
  exact ⟨fun h => (hP e).2 (EReal.neg_eq_top_iff.mp h),
    fun h => (hP e).1 (EReal.neg_eq_bot_iff.mp h)⟩

namespace State

theorem Coherent.isActive_mirrored (hs : s.Coherent P) (ht : t.Coherent P.mirror)
    (e : Fin (n + m)) (heq : P.IsEquality e) :
    (s.active.status.get e).IsActive ∧ (t.active.status.get e).IsActive :=
  ⟨(hs.admits e).isActive ((same_ereal _ _).mp heq),
    (ht.admits e).isActive ((same_ereal _ _).mp (P.isEquality_mirror_iff.mpr heq))⟩

theorem mirrors_start (hP : P.Proper) (g : PrimalDual ℝ n m) :
    (start P g).Mirrors P (start P.mirror g.mirror) := by
  have hvalue : P.mirror.valuesAt g.mirror.point = -P.valuesAt g.point := P.valuesAt_mirror g.point
  have hmultiplier : ∀ e, g.mirror.multiplier.get e = -g.multiplier.get e := get_neg g.multiplier
  have hstatus : ∀ e, ¬ P.IsEquality e → (start P.mirror g.mirror).active.status.get e =
      ((start P g).active.status.get e).mirror := by
    intro e hne
    have hbounds : P.lower.get e ≠ P.upper.get e := fun h => hne ((same_ereal _ _).mpr h)
    rw [get_status_start, get_status_start, Problem.get_lower_mirror, Problem.get_upper_mirror,
      hvalue, hmultiplier, get_neg, Status.seed_mirror hbounds]
  have hequality := (coherent_start hP g).isActive_mirrored (coherent_start hP.mirror g.mirror)
  refine ⟨hvalue, ⟨?_, hstatus, hequality⟩, P.objective_mirror g.point, rfl, rfl, rfl, rfl, rfl,
    fun _ => rfl⟩
  apply vector_ext
  intro e
  have hactive := Status.isActive_iff_of_mirror (hequality e) (hstatus e)
  rw [get_neg, get_multiplier_start, get_multiplier_start, hmultiplier]
  by_cases he : (start P g).active.status.get e = .inactive
  · rw [if_pos he, if_pos (not_not.mp fun h => hactive.mp h he), neg_zero]
  · rw [if_neg he, if_neg (hactive.mpr he)]

namespace Mirrors

variable {unit : ℝ} {S : Analysis n m} (hP : P.Proper) (hs : s.Coherent P)
variable (ht : t.Coherent P.mirror) (hst : s.Mirrors P t)
include hst

theorem factorization_eq (S : Analysis n m) :
    (attempt S P.mirror t).factorization = (attempt S P s).factorization :=
  congrArg S.factorize (Analysis.modify_congr hst.active.isActive_iff S _)

theorem isSingular_iff :
    (attempt S P.mirror t).IsSingular unit ↔ (attempt S P s).IsSingular unit := by
  rw [Attempt.isSingular_iff, Attempt.isSingular_iff, hst.factorization_eq]

theorem fail_singular (index : Option (Fin (n + m))) (length length' : ℝ) :
    (Attempt.fail s .singular index length).Mirrors P (Attempt.fail t .singular index length') :=
  ⟨hst.value, hst.active, hst.objective, rfl, hst.kind, congrArg (· + 1) hst.iteration, rfl, rfl,
    fun h => absurd rfl h⟩

include hs ht

theorem solution_eq (S : Analysis n m) :
    (attempt S P.mirror t).solution = -(attempt S P s).solution := by
  have hside : P.mirror.rightHandSide t.value t.active = -P.rightHandSide s.value s.active := by
    rw [hst.value]
    exact hst.active.rightHandSide_eq s.value hs.admits ht.admits
  change (attempt S P.mirror t).factorization.solveTransposed _ = _
  rw [hst.factorization_eq, hside, neg_eq_smul, Factorization.solveTransposed_smul, ← neg_eq_smul]
  rfl

theorem direction_eq (S : Analysis n m) :
    (attempt S P.mirror t).direction =
      P.mirror.direction (-s.value) t.active (-(attempt S P s).solution) := by
  rw [← hst.solution_eq hs ht S, ← hst.value]
  rfl

include hP

theorem limit_mirrors (S : Analysis n m) :
    (attempt S P s).limit.Mirrors (attempt S P.mirror t).limit := by
  refine stepLimit_mirror fun e => ?_
  have hdirection := hst.direction_eq hs ht S
  change (candidates P.mirror.lower P.mirror.upper t.value t.active
    (attempt S P.mirror t).direction).get e = _
  rw [hdirection, hst.value]
  exact hst.active.candidates_eq s.value _ hP e

theorem point_advanced_eq (S : Analysis n m) :
    (attempt S P.mirror t).advanced.point = -(attempt S P s).advanced.point := by
  have hpoint : t.point = -s.point := by
    rw [point, point, hst.value, onVariables_neg]
  rw [point_advanced, point_advanced, hpoint, hst.solution_eq hs ht S, onVariables_neg]
  exact P.pointAfter_mirror (hst.limit_mirrors hP hs ht S) _ _

theorem advanced (S : Analysis n m) :
    (attempt S P s).advanced.Mirrors P (attempt S P.mirror t).advanced := by
  have hs' := hs.advanced hP S
  have ht' := ht.advanced hP.mirror S
  have hlimit := hst.limit_mirrors hP hs ht S
  have hpoint := hst.point_advanced_eq hP hs ht S
  have hfull : (attempt S P.mirror t).limit.index.isNone = (attempt S P s).limit.index.isNone := by
    rw [hlimit.index]
  have hdirection : ∀ e, (attempt S P.mirror t).direction.multiplier.get e =
      -(attempt S P s).direction.multiplier.get e := by
    intro e
    rw [hst.direction_eq hs ht S]
    exact (hst.active.direction_eq s.value _ e).2
  -- equalities stay held because the statuses after the step fit, in both states
  refine ⟨?_, hst.active.activeAfter hdirection hlimit (hs'.isActive_mirrored ht'), ?_,
    hlimit.index, hlimit.kind, congrArg (· + 1) hst.iteration, hfull, ?_, fun _ => hlimit.length⟩
  · rw [hs'.value, ht'.value, hpoint, P.valuesAt_mirror]
  · rw [hs'.objective, ht'.objective, hpoint, P.objective_mirror]
  · rw [outcome_advanced, outcome_advanced, hfull, hst.outcome]

theorem iterate (unit : ℝ) (S : Analysis n m) :
    (iterate unit S P s).Mirrors P (QuadraticProgram.iterate unit S P.mirror t) := by
  by_cases hsingular : (attempt S P s).IsSingular unit
  · have hnext := Attempt.next_of_isSingular hsingular s
    have hnext' := Attempt.next_of_isSingular (hst.isSingular_iff.mpr hsingular) t
    rw [hst.factorization_eq] at hnext'
    rw [QuadraticProgram.iterate, QuadraticProgram.iterate, hnext, hnext']
    exact hst.fail_singular _ _ _
  · have hregular := (hs.isFatal_iff hP).not.mpr hsingular
    have hregular' := (ht.isFatal_iff hP.mirror).not.mpr (hst.isSingular_iff.not.mpr hsingular)
    rw [iterate_of_not_isFatal hregular, iterate_of_not_isFatal hregular']
    exact hst.advanced hP hs ht S

end Mirrors

end State

/-- Lower and upper bounds are treated alike: the run on the mirrored problem is the mirror image of
the run, state by state, and both problems are analysed alike. -/
theorem mirror_run (hP : P.Proper) (unit : ℝ) (S : Analysis n m) (g : PrimalDual ℝ n m) :
    (∀ rule, P.mirror.analyze rule = P.analyze rule) ∧
      (∀ k, (stateAfter unit S P g k).Mirrors P (stateAfter unit S P.mirror g.mirror k)) ∧
      ∀ budget,
        (solveFrom unit S P g budget).Mirrors P (solveFrom unit S P.mirror g.mirror budget) := by
  have hstates : ∀ k,
      (stateAfter unit S P g k).Mirrors P (stateAfter unit S P.mirror g.mirror k) := fun k => by
    refine related_stateAfter (State.mirrors_start hP g) fun j _ hst => ?_
    have hs := (reached_stateAfter unit S P g j).coherent hP
    have ht := (reached_stateAfter unit S P.mirror g.mirror j).coherent hP.mirror
    exact hst.iterate hP hs ht unit S
  exact ⟨P.analyze_mirror, hstates,
    fun _ => related_solveFrom (fun _ _ hst => hst.done) fun k _ => hstates k⟩

theorem mirror_run_halfLine :
    let S := Problem.halfLine.analyze .minimumDegree
    let t := solveFrom 0 S Problem.halfLine.mirror PrimalDual.origin.mirror 1
    Problem.halfLine.Proper ∧ t.outcome = .success ∧
      t.value = -(solveFrom 0 S Problem.halfLine .origin 1).value := by
  intro S t
  obtain ⟨-, -, hanswers⟩ := mirror_run Problem.proper_halfLine 0 S .origin
  have hanswer := hanswers 1
  exact ⟨Problem.proper_halfLine, hanswer.outcome.trans (outcome_halfLine .minimumDegree),
    hanswer.value⟩

end QuadraticProgram
