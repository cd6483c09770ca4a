import QuadraticProgram.Proofs.Run.LeastIndex
import QuadraticProgram.Proofs.Run.Success

/-! # Runs end

Let the objective be strictly convex and let the normals of the entries on a bound be linearly
independent wherever the inequalities hold. Then no system of a run is singular, so a run that does
not end stops at an entry in every iteration. The steps of positive length start from different
working sets, which are finitely many. After the last of them, some entry returns with only earlier
ones in between, and then two active sets at the same point disagree about it alone.
-/
namespace QuadraticProgram

variable {n m : ℕ} {unit : ℝ} {S : Analysis n m} {P : Problem ℝ EReal n m}
variable {g : PrimalDual ℝ n m} {s : State ℝ n m}

/-- Wherever the inequalities hold, the normals of the equalities and of the entries on a bound are
linearly independent. -/
def Problem.Nondegenerate (P : Problem ℝ EReal n m) : Prop :=
  ∀ x : Vector ℝ n, P.InequalitiesHold (P.valuesAt x) →
    LinearIndepOn ℝ P.normal {e | P.IsEquality e ∨
      (((P.valuesAt x).get e : ℝ) : EReal) = P.lower.get e ∨
      (((P.valuesAt x).get e : ℝ) : EReal) = P.upper.get e}

/-- In a sequence of finitely many numbers, late enough, one returns with only smaller ones in
between. -/
theorem exists_return {k : ℕ} (f : ℕ → Fin k) (N : ℕ) :
    ∃ a b, N ≤ a ∧ a < b ∧ f a = f b ∧ ∀ j, a < j → j < b → f j < f a := by
  classical
  -- the least bound of the tail is taken over and over again
  let Bounded (r : ℕ) : Prop := ∃ M, ∀ j ≥ M, (f j).val < r
  have hbounded : ∃ r, Bounded r := ⟨k, 0, fun j _ => (f j).isLt⟩
  obtain ⟨M, hM⟩ := Nat.find_spec hbounded
  obtain ⟨r, hr⟩ : ∃ r, Nat.find hbounded = r + 1 :=
    Nat.exists_eq_succ_of_ne_zero ((Nat.zero_le _).trans_lt (hM M le_rfl)).ne'
  have hagain : ∀ j, ∃ i ≥ j, M ≤ i ∧ (f i).val = r := by
    intro j
    have hsmaller : ¬ Bounded r := Nat.find_min hbounded (hr ▸ r.lt_succ_self)
    by_contra hnone
    push Not at hnone
    refine hsmaller ⟨max j M, fun i hi => ?_⟩
    have hlt := hM i (le_of_max_le_right hi)
    have hne := hnone i (le_of_max_le_left hi) (le_of_max_le_right hi)
    omega
  obtain ⟨a, hNa, hMa, ha⟩ := hagain N
  have hnext : ∃ b, a < b ∧ (f b).val = r := by
    obtain ⟨b, hab, -, hb⟩ := hagain (a + 1)
    exact ⟨b, hab, hb⟩
  obtain ⟨hab, hb⟩ := Nat.find_spec hnext
  refine ⟨a, Nat.find hnext, hNa, hab, Fin.ext (ha.trans hb.symm), fun j haj hjb => ?_⟩
  have hlt := hM j (hMa.trans haj.le)
  have hne : (f j).val ≠ r := fun hj => Nat.find_min hnext hjb ⟨haj, hj⟩
  rw [Fin.lt_def]
  omega

namespace State.Anchored

theorem linearIndepOn_of_nondegenerate (hgood : P.Nondegenerate) (hs : s.Anchored P) :
    LinearIndepOn ℝ P.normal {e | (s.active.status.get e).IsActive} := by
  have hx := hs.inequalities
  rw [hs.coherent.value] at hx
  refine (hgood s.point hx).mono fun e he => ?_
  by_cases heq : P.IsEquality e
  · exact Or.inl heq
  have hbound := hs.heldOnBounds e heq he
  rw [Set.mem_ofPred_eq, ← hs.coherent.value, hbound]
  cases s.active.status.get e with
  | upper => exact Or.inr (Or.inr rfl)
  | _ => exact Or.inr (Or.inl rfl)

theorem not_isFatal (hP : P.Proper) (hH : P.hessian.toMatrix.PosDef) (hS : S.Covers P)
    (hgood : P.Nondegenerate) (hs : s.Anchored P) : ¬ (attempt S P s).IsFatal 0 :=
  (hs.coherent.isFatal_iff hP).not.mpr
    (Problem.not_isSingular_attempt_of_linearIndependent hH hS
      (hs.linearIndepOn_of_nondegenerate hgood))

end State.Anchored

section Endless

variable (hunit : 0 ≤ unit) (hP : P.Proper) (hS : S.Covers P)
  (hanchored : ∀ k, (stateAfter unit S P g k).Anchored P)
  (hregular : ∀ k, ¬ (attempt S P (stateAfter unit S P g k)).IsFatal unit)

include hP hanchored hregular in
theorem isActive_stateAfter_iff {a b : ℕ} (hab : a ≤ b) {e : Fin (n + m)}
    (he : ∀ j, a ≤ j → j < b → (attempt S P (stateAfter unit S P g j)).limit.index ≠ some e) :
    ((stateAfter unit S P g b).active.status.get e).IsActive ↔
      ((stateAfter unit S P g a).active.status.get e).IsActive := by
  induction b, hab using Nat.le_induction with
  | base => exact Iff.rfl
  | succ b hab ih =>
    rw [stateAfter, iterate_of_not_isFatal (hregular b),
      (hanchored b).coherent.isActive_advanced_of_ne_index hP (he b hab b.lt_succ_self)]
    exact ih fun j haj hjb => he j haj (hjb.trans b.lt_succ_self)

include hP hanchored hregular in
theorem stateAfter_eq_of_length_zero {a b : ℕ} (hab : a ≤ b)
    (hzero : ∀ j ≥ a, (attempt S P (stateAfter unit S P g j)).limit.length ≤ 0) :
    (stateAfter unit S P g b).value = (stateAfter unit S P g a).value ∧
      (stateAfter unit S P g b).active.multiplier =
        (stateAfter unit S P g a).active.multiplier := by
  induction b, hab using Nat.le_induction with
  | base => exact ⟨rfl, rfl⟩
  | succ b hab ih =>
    have hb := hanchored b
    have hlength : (attempt S P (stateAfter unit S P g b)).limit.length = 0 :=
      le_antisymm (hzero b hab) (hb.coherent.length_nonneg hP S)
    rw [← ih.1, ← ih.2, stateAfter, iterate_of_not_isFatal (hregular b)]
    constructor
    · refine vector_ext fun e => ?_
      rw [hb.coherent.get_value_advanced hP hb.inequalities.variables S e, hlength, zero_mul,
        add_zero]
    · refine vector_ext fun e => ?_
      rw [hb.coherent.get_multiplier_advanced hP S e, hlength, zero_mul, add_zero]

include hunit hP hS hanchored in
theorem exists_length_zero (hH : P.hessian.toMatrix.IsSymm)
    (hrunning : ∀ k, (stateAfter unit S P g k).done = false) :
    ∃ N, ∀ j ≥ N, (attempt S P (stateAfter unit S P g j)).limit.length ≤ 0 := by
  let moves : Set ℕ := {k | 0 < (attempt S P (stateAfter unit S P g k)).limit.length}
  let sides (k : ℕ) := (stateAfter unit S P g k).sides P
  have hdistinct : ∀ a b, a < b → b ∈ moves → sides a ≠ sides b := by
    intro a b hab hb hsides
    have hfollows := follows_stateAfter (fun j _ => hrunning j) hab
    exact hfollows.not_sameWorkingSet hunit hP hH hS (hanchored a) (hrunning b) hb
      ((hanchored a).coherent.sameWorkingSet_of_sides (hanchored b).coherent hsides)
  have hinjective : Set.InjOn sides moves := by
    intro a ha b hb hsides
    rcases lt_trichotomy a b with hab | rfl | hba
    · exact absurd hsides (hdistinct a b hab hb)
    · rfl
    · exact absurd hsides.symm (hdistinct b a hba ha)
  obtain ⟨N, hN⟩ := (Set.Finite.of_finite_image (Set.toFinite (sides '' moves)) hinjective).bddAbove
  refine ⟨N + 1, fun j hj => not_lt.mp fun hpos => ?_⟩
  exact absurd (hN hpos) (Nat.not_le_of_lt hj)

include hunit hP hS hanchored hregular in
theorem exists_done (hH : P.hessian.toMatrix.PosSemidef) :
    ∃ k, (stateAfter unit S P g k).done = true := by
  by_contra hendless
  have hrunning : ∀ k, (stateAfter unit S P g k).done = false :=
    fun k => (Bool.not_eq_true _).mp fun hdone => hendless ⟨k, hdone⟩
  have hindex : ∀ k, ∃ e, (attempt S P (stateAfter unit S P g k)).limit.index = some e := by
    intro k
    have hnext := hrunning (k + 1)
    rw [stateAfter, iterate_of_not_isFatal (hregular k)] at hnext
    exact Option.isSome_iff_exists.mp (Option.isNone_eq_false_iff.mp hnext)
  choose f hf using hindex
  obtain ⟨N, hzero⟩ := exists_length_zero hunit hP hS hanchored hH.isHermitian hrunning
  obtain ⟨a, b, hNa, hab, hreturn, hbetween⟩ := exists_return f N
  have hsolves := fun k => solves_of_not_isFatal hunit hS (hregular k)
  obtain ⟨hvalue, hmultiplier⟩ := stateAfter_eq_of_length_zero hP hanchored hregular hab.le
    fun j hj => hzero j (hNa.trans hj)
  have hlater : ∀ e > f a, ((stateAfter unit S P g a).active.status.get e).IsActive ↔
      ((stateAfter unit S P g b).active.status.get e).IsActive := by
    intro e he
    refine (isActive_stateAfter_iff hP hanchored hregular hab.le fun j haj hjb hej => ?_).symm
    have hfj : f j = e := Option.some.inj ((hf j).symm.trans hej)
    rcases haj.eq_or_lt with rfl | haj
    · exact he.ne hfj
    · exact (hbetween j haj hjb).not_gt (hfj ▸ he)
  have hagree := (hanchored a).isActive_iff_of_index hP hS (hanchored b) hH (hsolves a) (hsolves b)
    hvalue hmultiplier (hf a) (hreturn ▸ hf b) (hzero a hNa) (hzero b (hNa.trans hab.le)) hlater
  -- the first of the two iterations changed the entry, and nothing changed it back
  have hkept := isActive_stateAfter_iff hP hanchored hregular hab fun j haj hjb hej =>
    (hbetween j haj hjb).ne (Option.some.inj ((hf j).symm.trans hej))
  rw [stateAfter, iterate_of_not_isFatal (hregular a),
    (hanchored a).coherent.isActive_advanced_of_index hP (hf a)] at hkept
  exact iff_not_self (hagree.trans hkept)

end Endless

section Nondegenerate

variable (hP : P.Proper) (hH : P.hessian.toMatrix.PosDef) (hS : S.Covers P)
  (hgood : P.Nondegenerate) (hg : P.InequalitiesHold (P.valuesAt g.point))
  (hzero : ∀ e, g.multiplier.get e = 0)
include hP hH hS hgood hg hzero

/-- Nothing but a full step ends the run. -/
theorem exists_success_stateAfter :
    ∃ k, (∀ j < k, (stateAfter 0 S P g j).done = false) ∧ (stateAfter 0 S P g k).done = true ∧
      (stateAfter 0 S P g k).outcome = .success := by
  have hanchored : ∀ k, (stateAfter 0 S P g k).Anchored P := fun k =>
    (reached_stateAfter 0 S P g k).anchored le_rfl hP hS hg (State.heldOnBounds_start hzero)
  have hregular : ∀ k, ¬ (attempt S P (stateAfter 0 S P g k)).IsFatal 0 := fun k =>
    (hanchored k).not_isFatal hP hH hS hgood
  have hends := exists_done le_rfl hP hS hanchored hregular hH.posSemidef
  have hdone := Nat.find_spec hends
  have hrunning : ∀ j < Nat.find hends, (stateAfter 0 S P g j).done = false :=
    fun j hj => (Bool.not_eq_true _).mp (Nat.find_min hends hj)
  refine ⟨Nat.find hends, hrunning, hdone, ?_⟩
  cases hk : Nat.find hends with
  | zero =>
    rw [hk] at hdone
    exact Bool.noConfusion hdone
  | succ k =>
    rw [hk, stateAfter, iterate_of_not_isFatal (hregular k)] at hdone
    rw [stateAfter, iterate_of_not_isFatal (hregular k)]
    exact if_pos hdone

/-- With any budget that is large enough the run ends in one and the same point, and no feasible
point is better. -/
theorem optimal_of_nondegenerate :
    ∃ s K, (∀ budget ≥ K, solveFrom 0 S P g budget = s) ∧ s.outcome = .success ∧
      P.Feasible s.point ∧ P.IsOptimal s.primalDual 0 ∧
      ∀ y, P.Feasible y → P.objective s.point ≤ P.objective y := by
  obtain ⟨k, hrunning, hdone, hsuccess⟩ := exists_success_stateAfter hP hH hS hgood hg hzero
  have hlast : ∀ budget ≥ k, solveFrom 0 S P g budget = stateAfter 0 S P g k :=
    fun budget hbudget => solveFrom_eq_stateAfter hrunning hdone hbudget
  have hsettled : (stateAfter 0 S P g k).Settled P := by
    have hanswer := settled_of_success le_rfl hP hH.isHermitian hS
      ((congrArg State.outcome (hlast k le_rfl)).trans hsuccess)
    rwa [hlast k le_rfl] at hanswer
  have hreached := reached_stateAfter 0 S P g k
  have hfeasible := hsettled.feasible (hreached.coherent hP)
    (hreached.inequalitiesHold le_rfl hP hS hg)
  exact ⟨_, k, hlast, hsuccess, hfeasible, hsettled.isOptimal hfeasible,
    hsettled.objective_le hH.posSemidef⟩

end Nondegenerate

/-- From within the inequalities and without multipliers, a run on a nondegenerate strictly convex
problem succeeds with any budget that is large enough. -/
theorem success_of_nondegenerate (hP : P.Proper) (hH : P.hessian.toMatrix.PosDef)
    (hS : S.Covers P) (hgood : P.Nondegenerate) (hg : P.InequalitiesHold (P.valuesAt g.point))
    (hzero : ∀ e, g.multiplier.get e = 0) :
    ∃ K, ∀ budget ≥ K, (solveFrom 0 S P g budget).outcome = .success := by
  obtain ⟨k, hrunning, hdone, hsuccess⟩ := exists_success_stateAfter hP hH hS hgood hg hzero
  refine ⟨k, fun budget hbudget => ?_⟩
  rw [solveFrom_eq_stateAfter hrunning hdone hbudget]
  exact hsuccess

theorem Problem.nondegenerate_aboveOne : aboveOne.Nondegenerate := fun _ _ =>
  linearIndepOn_normal_aboveOne _

theorem success_of_nondegenerate_aboveOne :
    let g : PrimalDual ℝ 1 0 := ⟨Vector.ofFn fun _ => 2, Vector.ofFn fun _ => 0⟩
    let S := Problem.aboveOne.analyze .minimumDegree
    Problem.aboveOne.Proper ∧ Problem.aboveOne.hessian.toMatrix.PosDef ∧
      S.Covers Problem.aboveOne ∧ Problem.aboveOne.Nondegenerate ∧
      Problem.aboveOne.InequalitiesHold (Problem.aboveOne.valuesAt g.point) ∧
      (∀ e, g.multiplier.get e = 0) ∧
      ∃ K, ∀ budget ≥ K, (solveFrom 0 S Problem.aboveOne g budget).outcome = .success := by
  intro g S
  have hS := covers_analyze Problem.aboveOne .minimumDegree
  have hH := Problem.posDef_hessian_aboveOne
  have hg : Problem.aboveOne.InequalitiesHold (Problem.aboveOne.valuesAt g.point) := by
    intro e _
    have hvalue : (Problem.aboveOne.valuesAt g.point).get e = 2 :=
      (Problem.get_valuesAt_castAdd _ _ e).trans (get_ofFn _ _)
    rw [hvalue, (Problem.bounds_aboveOne e).1, (Problem.bounds_aboveOne e).2]
    exact ⟨by exact_mod_cast one_le_two, le_top⟩
  have hzero : ∀ e, g.multiplier.get e = 0 := fun e => get_ofFn _ _
  exact ⟨Problem.proper_aboveOne, hH, hS, Problem.nondegenerate_aboveOne, hg, hzero,
    success_of_nondegenerate Problem.proper_aboveOne hH hS Problem.nondegenerate_aboveOne hg hzero⟩

end QuadraticProgram
