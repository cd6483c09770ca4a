import QuadraticProgram.Proofs.Run.WarmStart

/-! # Problems with equalities only

When every entry is an equality or has no bounds, the bounds alone decide what is held: a guess may
choose the side of an equality and nothing else. No free entry meets a bound and no equality is ever
released, so nothing limits the first step. The step ends where every equality is met, every other
multiplier is zero and the gradient is balanced, and a regular system leaves one such place.
-/
namespace QuadraticProgram
open Matrix

variable {n m : ℕ} {unit : ℝ} {S : Analysis n m} {P : Problem ℝ EReal n m}
variable {g : PrimalDual ℝ n m} {s : State ℝ n m} {e : Fin (n + m)}

namespace Problem

/-- Every entry has one finite value to take, or no bound at all. -/
def OnlyEqualities (P : Problem ℝ EReal n m) : Prop :=
  ∀ e, (∃ b : ℝ, P.lower.get e = b ∧ P.upper.get e = b) ∨ P.lower.get e = ⊥ ∧ P.upper.get e = ⊤

theorem OnlyEqualities.proper (hP : P.OnlyEqualities) : P.Proper := by
  intro e
  rcases hP e with ⟨b, hlower, hupper⟩ | ⟨hlower, hupper⟩
  · rw [hlower, hupper]
    exact ⟨EReal.coe_ne_top b, EReal.coe_ne_bot b⟩
  · rw [hlower, hupper]
    exact ⟨bot_ne_top, bot_ne_top.symm⟩

theorem OnlyEqualities.unbounded (hP : P.OnlyEqualities) (hne : P.lower.get e ≠ P.upper.get e) :
    P.lower.get e = ⊥ ∧ P.upper.get e = ⊤ :=
  (hP e).resolve_left fun ⟨_, hlower, hupper⟩ => hne (hlower.trans hupper.symm)

structure MeetsEqualities (P : Problem ℝ EReal n m) (x : Vector ℝ n)
    (multiplier : Vector ℝ (n + m)) : Prop where
  value : ∀ e, P.lower.get e = P.upper.get e →
    (((P.valuesAt x).get e : ℝ) : EReal) = P.lower.get e
  free : ∀ e, P.lower.get e ≠ P.upper.get e → multiplier.get e = 0
  balance : ∀ i, P.balance x multiplier i = 0

/-- With a regular system for the equalities, the conditions have one solution. -/
theorem MeetsEqualities.eq (hH : P.hessian.toMatrix.IsSymm) (hS : S.Covers P)
    {status : Vector Status (n + m)}
    (hstatus : ∀ e, (status.get e).IsActive ↔ P.lower.get e = P.upper.get e)
    (hunit : IsUnit (S.modify (S.assemble P) status).toMatrix) {x x' : Vector ℝ n}
    {l l' : Vector ℝ (n + m)} (h : P.MeetsEqualities x l) (h' : P.MeetsEqualities x' l') :
    x = x' ∧ l = l' := by
  obtain ⟨hpoint, hmultiplier⟩ : x.get = x'.get ∧ l.get = l'.get := by
    refine eq_of_isUnit hH hS hunit (fun e he => ?_) (fun e he => ?_) fun i => ?_
    · have heq := (hstatus e).mp he
      rw [← get_valuesAt_eq_dotProduct, ← get_valuesAt_eq_dotProduct]
      exact EReal.coe_injective ((h.value e heq).trans (h'.value e heq).symm)
    · have hne := (hstatus e).not.mp (not_not.mpr he)
      rw [h.free e hne, h'.free e hne]
    · have hbalance := (h.balance i).trans (h'.balance i).symm
      rw [balance_eq_tilt, balance_eq_tilt] at hbalance
      exact add_right_cancel hbalance
  exact ⟨vector_ext (congrFun hpoint), vector_ext (congrFun hmultiplier)⟩

end Problem

namespace State

section OnlyEqualities

variable (hP : P.OnlyEqualities) (hs : s.Coherent P)
include hP hs

/-- An entry is held exactly when it is an equality, since a status fits only a finite side. -/
theorem Coherent.isActive_iff (e : Fin (n + m)) :
    (s.active.status.get e).IsActive ↔ P.lower.get e = P.upper.get e := by
  refine ⟨fun hactive => ?_, (hs.admits e).isActive⟩
  by_contra hne
  obtain ⟨hlower, hupper⟩ := hP.unbounded hne
  have hfits := hs.admits e
  rcases hfits.eq_lower_or_inactive_or_upper with hstatus | hstatus | hstatus
  · rw [hstatus] at hfits
    exact hfits.2 hlower
  · exact hactive hstatus
  · rw [hstatus] at hfits
    exact hfits.2 hupper

/-- Nothing limits a step: an equality makes no proposal, and a free entry has no bound to meet. -/
theorem Coherent.index_eq_none (S : Analysis n m) : (attempt S P s).limit.index = none := by
  refine Option.eq_none_iff_forall_ne_some.mpr fun e he => ?_
  obtain ⟨c, hproposes, -⟩ := Coherent.proposes_of_index hP.proper he
  have hne := hproposes.bounds_ne (hs.admits e)
  obtain ⟨hlower, hupper⟩ := hP.unbounded hne
  have hfree : s.active.status.get e = .inactive :=
    not_not.mp ((hs.isActive_iff hP e).not.mpr hne)
  rw [hfree] at hproposes
  cases hproposes with
  | upperBound hub => exact EReal.coe_ne_top _ (hub.symm.trans hupper)
  | lowerBound hlb => exact EReal.coe_ne_bot _ (hlb.symm.trans hlower)

theorem Settled.meetsEqualities (hsettled : s.Settled P) :
    P.MeetsEqualities s.point s.active.multiplier where
  value _ heq := hsettled.value_of_isEquality hs (Problem.isEquality_iff.mpr heq)
  free e hne := (hs.admits e).multiplier_eq_zero
    (not_not.mp ((hs.isActive_iff hP e).not.mpr hne))
  balance := hsettled.balance

end OnlyEqualities

/-- No guess makes the first system singular, or every guess does. -/
theorem isSingular_start_congr (hP : P.OnlyEqualities) (g g' : PrimalDual ℝ n m) :
    (attempt S P (start P g)).IsSingular unit ↔ (attempt S P (start P g')).IsSingular unit :=
  isSingular_attempt_congr fun e => ((coherent_start hP.proper g).isActive_iff hP e).trans
    ((coherent_start hP.proper g').isActive_iff hP e).symm

end State

theorem success_of_onlyEqualities (hP : P.OnlyEqualities)
    (hregular : ¬ (attempt S P (State.start P g)).IsSingular unit) {budget : ℕ}
    (hbudget : 0 < budget) :
    (solveFrom unit S P g budget).outcome = .success ∧
      (solveFrom unit S P g budget).iteration = 1 := by
  have hcoherent := State.coherent_start hP.proper g
  have hfull := hcoherent.index_eq_none hP S
  have hstep : iterate unit S P (State.start P g) = (attempt S P (State.start P g)).advanced :=
    iterate_of_not_isFatal ((hcoherent.isFatal_iff hP.proper).not.mpr hregular)
  have hdone : (attempt S P (State.start P g)).limit.index.isNone = true :=
    Option.isNone_iff_eq_none.mpr hfull
  rw [solveFrom_eq_iterate ((congrArg State.done hstep).trans hdone) hbudget, hstep,
    outcome_advanced, if_pos hdone]
  exact ⟨rfl, rfl⟩

/-- With equalities only, a run succeeds after one iteration unless its first system is singular.
The answer meets the equalities, has no other multipliers and balances the gradient, and it is the
same for every guess. -/
theorem solved_in_one_iteration (hunit : 0 ≤ unit) (hP : P.OnlyEqualities)
    (hH : P.hessian.toMatrix.IsSymm) (hS : S.Covers P)
    (hregular : ¬ (attempt S P (State.start P g)).factorization.IsSingular unit) {budget : ℕ}
    (hbudget : 0 < budget) :
    let s := solveFrom unit S P g budget
    (s.outcome = .success ∧ s.iteration = 1) ∧
      (∀ e, P.lower.get e = P.upper.get e →
        (s.active.status.get e = .lower ∨ s.active.status.get e = .upper) ∧
          (((P.valuesAt s.point).get e : ℝ) : EReal) = P.lower.get e) ∧
      (∀ e, P.lower.get e ≠ P.upper.get e →
        s.active.status.get e = .inactive ∧ s.active.multiplier.get e = 0) ∧
      (∀ i, (P.gradient s.point (onRows s.active.multiplier)).get i +
        s.active.multiplier.get (i.castAdd m) = 0) ∧
      ∀ (g' : PrimalDual ℝ n m) {budget' : ℕ}, 0 < budget' →
        let t := solveFrom unit S P g' budget'
        t.point = s.point ∧ t.active.multiplier = s.active.multiplier := by
  intro s
  have hregular : ¬ (attempt S P (State.start P g)).IsSingular unit :=
    (Attempt.isSingular_iff _).not.mpr hregular
  have hmeets : ∀ (g' : PrimalDual ℝ n m) {budget' : ℕ}, 0 < budget' →
      P.MeetsEqualities (solveFrom unit S P g' budget').point
        (solveFrom unit S P g' budget').active.multiplier := by
    intro g' budget' hbudget'
    -- the bounds decide what is held, so the first system is the same for every guess
    have hregular' := (State.isSingular_start_congr hP g g').not.mp hregular
    have hsuccess := (success_of_onlyEqualities hP hregular' hbudget').1
    have hcoherent := (reached_solveFrom unit S P g' budget').coherent hP.proper
    exact State.Settled.meetsEqualities hP hcoherent
      (settled_of_success hunit hP.proper hH hS hsuccess)
  have hcoherent : s.Coherent P := (reached_solveFrom unit S P g budget).coherent hP.proper
  have hs : P.MeetsEqualities s.point s.active.multiplier := hmeets g hbudget
  refine ⟨success_of_onlyEqualities hP hregular hbudget, fun e heq => ⟨?_, hs.value e heq⟩,
    fun e hne => ⟨?_, hs.free e hne⟩, hs.balance, fun g' budget' hbudget' => ?_⟩
  · have hactive := (hcoherent.isActive_iff hP e).mpr heq
    exact (hcoherent.admits e).eq_lower_or_inactive_or_upper.imp_right fun h =>
      h.resolve_left hactive
  · exact not_not.mp ((hcoherent.isActive_iff hP e).not.mpr hne)
  -- the conditions name no guess, and a regular system leaves them one solution
  · exact (hmeets g' hbudget').eq hH hS ((State.coherent_start hP.proper g).isActive_iff hP)
      (isUnit_modify_of_not_isSingular hunit hS hregular) hs

section FreeLine

open Problem

noncomputable def Problem.freeLine : Problem ℝ EReal 1 1 :=
  { halfLine with
    lower := join (Vector.ofFn fun _ => ⊥) (Vector.ofFn fun _ => 1)
    upper := join (Vector.ofFn fun _ => ⊤) (Vector.ofFn fun _ => 1)
    ordered := by
      intro e
      refine decide_eq_false (not_lt.mpr ?_)
      refine Fin.addCases (fun i => ?_) (fun j => ?_) e
      · rw [get_join_castAdd, get_join_castAdd, get_ofFn, get_ofFn]
        exact bot_le
      · rw [get_join_natAdd, get_join_natAdd] }

theorem Problem.bounds_freeLine_castAdd (i : Fin 1) :
    freeLine.lower.get (i.castAdd 1) = ⊥ ∧ freeLine.upper.get (i.castAdd 1) = ⊤ :=
  ⟨(get_join_castAdd _ _ i).trans (get_ofFn _ i), (get_join_castAdd _ _ i).trans (get_ofFn _ i)⟩

theorem Problem.bounds_freeLine_natAdd (j : Fin 1) :
    freeLine.lower.get (j.natAdd 1) = 1 ∧ freeLine.upper.get (j.natAdd 1) = 1 :=
  ⟨(get_join_natAdd _ _ j).trans (get_ofFn _ j), (get_join_natAdd _ _ j).trans (get_ofFn _ j)⟩

theorem Problem.onlyEqualities_freeLine : freeLine.OnlyEqualities := by
  intro e
  refine Fin.addCases (fun i => ?_) (fun j => ?_) e
  · exact Or.inr (bounds_freeLine_castAdd i)
  · exact Or.inl ⟨1, bounds_freeLine_natAdd j⟩

/-- The row alone is held, whatever the guess. -/
theorem not_isSingular_freeLine (rule : ColumnOrder) (g : PrimalDual ℝ 1 1) :
    ¬ (attempt (freeLine.analyze rule) freeLine (State.start freeLine g)).IsSingular 0 := by
  have hP := onlyEqualities_freeLine
  have hH : freeLine.hessian.toMatrix.PosDef := posDef_hessian_halfLine
  refine not_isSingular_attempt_of_linearIndependent hH (covers_analyze freeLine rule) ?_
  refine linearIndepOn_normal_halfLine fun hheld => ?_
  have hbounds := ((State.coherent_start hP.proper g).isActive_iff hP _).mp hheld
  rw [(bounds_freeLine_castAdd 0).1, (bounds_freeLine_castAdd 0).2] at hbounds
  exact bot_ne_top hbounds

noncomputable def PrimalDual.astray : PrimalDual ℝ 1 1 :=
  ⟨Vector.ofFn fun _ => -1, Vector.ofFn fun _ => 1⟩

/-- A guess with multipliers that the run drops gives the answer of the guess without any. -/
theorem solved_in_one_iteration_freeLine :
    let S := freeLine.analyze .minimumDegree
    let s := solveFrom 0 S freeLine .origin 1
    let t := solveFrom 0 S freeLine .astray 7
    freeLine.OnlyEqualities ∧ freeLine.hessian.toMatrix.IsSymm ∧ S.Covers freeLine ∧
      ¬ (attempt S freeLine (State.start freeLine .astray)).factorization.IsSingular 0 ∧
      t.outcome = .success ∧ t.iteration = 1 ∧ t.point.get 0 = 1 ∧ t.point = s.point := by
  intro S s t
  have hP := onlyEqualities_freeLine
  have hS := covers_analyze freeLine .minimumDegree
  have hregular :
      ¬ (attempt S freeLine (State.start freeLine .astray)).factorization.IsSingular 0 :=
    (Attempt.isSingular_iff _).not.mp (not_isSingular_freeLine .minimumDegree .astray)
  obtain ⟨⟨hsuccess, hiteration⟩, hvalue, -, -, hguess⟩ := solved_in_one_iteration le_rfl hP
    isSymm_hessian_halfLine hS hregular (by decide : 0 < 7)
  have hbounds := bounds_freeLine_natAdd 0
  have hrow := (hvalue (Fin.natAdd 1 0) (hbounds.1.trans hbounds.2.symm)).2
  have hpoint : (freeLine.valuesAt t.point).get (Fin.natAdd 1 0) = t.point.get 0 :=
    get_valuesAt_halfLine t.point 0
  rw [hpoint, hbounds.1] at hrow
  exact ⟨hP, isSymm_hessian_halfLine, hS, hregular, hsuccess, hiteration, EReal.coe_eq_one.mp hrow,
    (hguess .origin (by decide : 0 < 1)).1.symm⟩

end FreeLine

end QuadraticProgram
