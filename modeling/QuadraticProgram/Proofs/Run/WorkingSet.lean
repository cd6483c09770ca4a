import Mathlib.Data.Sign.Defs
import QuadraticProgram.Proofs.Kernel
import QuadraticProgram.Proofs.Run.Anchored
import QuadraticProgram.Proofs.Run.Shrinking

/-! # Working sets

States with the same working set aim at the same target, and what is left of the residual says how
far they are from it. So a later state with the working set of an earlier one lies on the line that
the earlier step went along, at least as far out. No inequality holds beyond the entry that limited
that step, and at this entry a new step in the same direction has length zero. Hence a step of
positive length starts from a working set that the run has not used before.
-/
namespace QuadraticProgram
open Matrix

variable {n m : ℕ} {unit : ℝ} {S : Analysis n m} {P : Problem ℝ EReal n m}
variable {g : PrimalDual ℝ n m} {s t : State ℝ n m} {c : ℝ}

def Status.side : Status → SignType
  | .lower => -1
  | .upper => 1
  | .inactive => 0
  | .fixed .. => 0

theorem Status.Admits.eq_of_side {lb ub : EReal} {l l' : ℝ} {a b : Status} (ha : a.Admits lb ub l)
    (hb : b.Admits lb ub l') (h : a.side = b.side) : a = b := by
  rcases ha.eq_lower_or_inactive_or_upper with rfl | rfl | rfl <;>
    rcases hb.eq_lower_or_inactive_or_upper with rfl | rfl | rfl <;> first | rfl | cases h

namespace Problem

/-- The same entries are held, and inequalities on the same side. -/
def SameWorkingSet (P : Problem ℝ EReal n m) (a b : Vector Status (n + m)) : Prop :=
  ∀ e, ((a.get e).IsActive ↔ (b.get e).IsActive) ∧ (¬ P.IsEquality e → a.get e = b.get e)

theorem SameWorkingSet.inactive {a b : Vector Status (n + m)} (h : P.SameWorkingSet a b)
    {e : Fin (n + m)} (he : a.get e = .inactive) : b.get e = .inactive :=
  not_not.mp fun hactive => (h e).1.mpr hactive he

theorem SameWorkingSet.boundOn {a b : Vector Status (n + m)} (h : P.SameWorkingSet a b)
    (e : Fin (n + m)) :
    (a.get e).boundOn (P.lower.get e) (P.upper.get e) =
      (b.get e).boundOn (P.lower.get e) (P.upper.get e) := by
  by_cases heq : P.IsEquality e
  · have hbounds := isEquality_iff.mp heq
    rw [Status.boundOn_of_eq hbounds, Status.boundOn_of_eq hbounds]
  · rw [(h e).2 heq]

end Problem

def State.sides (P : Problem ℝ EReal n m) (s : State ℝ n m)
    (e : {e : Fin (n + m) // ¬ P.IsEquality e}) : SignType :=
  (s.active.status.get e.val).side

theorem State.Coherent.sameWorkingSet_of_sides (hs : s.Coherent P) (ht : t.Coherent P)
    (h : s.sides P = t.sides P) : P.SameWorkingSet s.active.status t.active.status := by
  intro e
  by_cases heq : P.IsEquality e
  · have hbounds := Problem.isEquality_iff.mp heq
    exact ⟨iff_of_true ((hs.admits e).isActive hbounds) ((ht.admits e).isActive hbounds),
      fun hne => absurd heq hne⟩
  · have hstatus := (hs.admits e).eq_of_side (ht.admits e) (congrFun h ⟨e, heq⟩)
    rw [hstatus]
    exact ⟨Iff.rfl, fun _ => rfl⟩

/-- What a run left of the residuals of the first state: of the balance of the gradient, and of the
gaps of the equalities. -/
structure State.Shrunk (P : Problem ℝ EReal n m) (c : ℝ) (s t : State ℝ n m) : Prop where
  balance : ∀ i, P.balance t.point t.active.multiplier i =
    c * P.balance s.point s.active.multiplier i
  gap : ∀ e, P.IsEquality e → ∀ b : ℝ, P.lower.get e = b →
    t.value.get e - b = c * (s.value.get e - b)

namespace State.Coherent

theorem normal_dotProduct_point (hs : s.Coherent P) (e : Fin (n + m)) :
    P.normal e ⬝ᵥ s.point.get = s.value.get e := by
  rw [← P.get_valuesAt_eq_dotProduct, ← hs.value]

theorem normal_dotProduct_full_step (hs : s.Coherent P) (S : Analysis n m) (e : Fin (n + m)) :
    P.normal e ⬝ᵥ (s.point.get + (onVariables (attempt S P s).solution).get) =
      s.value.get e + (attempt S P s).direction.value.get e := by
  rw [dotProduct_add, hs.normal_dotProduct_point, normal_dotProduct_solution]

theorem multiplier_full_step_of_inactive (hs : s.Coherent P) (S : Analysis n m) {e : Fin (n + m)}
    (he : s.active.status.get e = .inactive) :
    (s.active.multiplier.get + (attempt S P s).direction.multiplier.get) e = 0 := by
  rw [Pi.add_apply, (hs.admits e).multiplier_eq_zero he,
    get_multiplier_direction_of_inactive S P s he, add_zero]

theorem tilt_full_step (hH : P.hessian.toMatrix.IsSymm) (hS : S.Covers P) (hs : s.Coherent P)
    (hz : S.Solves P s.value s.active (attempt S P s).solution) (i : Fin n) :
    P.tilt (s.point.get + (onVariables (attempt S P s).solution).get)
      (s.active.multiplier.get + (attempt S P s).direction.multiplier.get) i =
        -P.linear.get i := by
  have hmove := P.tilt_add_smul s.point.get (onVariables (attempt S P s).solution).get
    s.active.multiplier.get (attempt S P s).direction.multiplier.get 1
  have htilt := hs.tilt_direction hH hS hz i
  rw [P.balance_eq_tilt] at htilt
  rw [one_smul, one_smul, one_smul] at hmove
  rw [hmove, Pi.add_apply, htilt]
  ring

end State.Coherent

section Target

variable (hP : P.Proper) (hH : P.hessian.toMatrix.IsSymm) (hS : S.Covers P) (hs : s.Anchored P)
  (ht : t.Anchored P) (hzs : S.Solves P s.value s.active (attempt S P s).solution)
  (hzt : S.Solves P t.value t.active (attempt S P t).solution)
  (hsame : P.SameWorkingSet s.active.status t.active.status)

include hP hS hs ht hzs hzt hsame

theorem full_step_eq_of_isActive {e : Fin (n + m)} (he : (s.active.status.get e).IsActive) :
    t.value.get e + (attempt S P t).direction.value.get e =
      s.value.get e + (attempt S P s).direction.value.get e := by
  have hfulls := hs.coherent.full_step_of_isActive hP hS hzs he
  have hfullt := ht.coherent.full_step_of_isActive hP hS hzt ((hsame e).1.mp he)
  rw [← hsame.boundOn e, ← hfulls] at hfullt
  exact EReal.coe_injective hfullt

include hH

variable (hunit : IsUnit (S.modify (S.assemble P) s.active.status).toMatrix)
include hunit

theorem full_step_eq :
    (∀ e, t.value.get e + (attempt S P t).direction.value.get e =
        s.value.get e + (attempt S P s).direction.value.get e) ∧
      ∀ e, t.active.multiplier.get e + (attempt S P t).direction.multiplier.get e =
        s.active.multiplier.get e + (attempt S P s).direction.multiplier.get e := by
  obtain ⟨hpoint, hmultiplier⟩ :
      t.point.get + (onVariables (attempt S P t).solution).get =
          s.point.get + (onVariables (attempt S P s).solution).get ∧
        t.active.multiplier.get + (attempt S P t).direction.multiplier.get =
          s.active.multiplier.get + (attempt S P s).direction.multiplier.get := by
    refine Problem.eq_of_isUnit hH hS hunit (fun e he => ?_) (fun e he => ?_) fun i => ?_
    · rw [ht.coherent.normal_dotProduct_full_step, hs.coherent.normal_dotProduct_full_step,
        full_step_eq_of_isActive hP hS hs ht hzs hzt hsame he]
    · rw [ht.coherent.multiplier_full_step_of_inactive S (hsame.inactive he),
        hs.coherent.multiplier_full_step_of_inactive S he]
    · rw [ht.coherent.tilt_full_step hH hS hzt, hs.coherent.tilt_full_step hH hS hzs]
  refine ⟨fun e => ?_, fun e => congrFun hmultiplier e⟩
  rw [← ht.coherent.normal_dotProduct_full_step, ← hs.coherent.normal_dotProduct_full_step, hpoint]

theorem direction_eq_mul (hshrunk : State.Shrunk P c s t) :
    (∀ e, (attempt S P t).direction.value.get e = c * (attempt S P s).direction.value.get e) ∧
      ∀ e, (attempt S P t).direction.multiplier.get e =
        c * (attempt S P s).direction.multiplier.get e := by
  have hheld : ∀ e, (s.active.status.get e).IsActive →
      (attempt S P t).direction.value.get e = c * (attempt S P s).direction.value.get e := by
    intro e he
    have het := (hsame e).1.mp he
    by_cases heq : P.IsEquality e
    · have hfull := full_step_eq_of_isActive hP hS hs ht hzs hzt hsame he
      have hbound := hs.coherent.full_step_of_isActive hP hS hzs he
      rw [Status.boundOn_of_eq (Problem.isEquality_iff.mp heq)] at hbound
      have hgap := hshrunk.gap e heq _ hbound.symm
      linarith
    · rw [hs.coherent.direction_eq_zero_of_heldOnBounds hP hS hzs hs.heldOnBounds heq he,
        ht.coherent.direction_eq_zero_of_heldOnBounds hP hS hzt ht.heldOnBounds heq het, mul_zero]
  obtain ⟨hpoint, hmultiplier⟩ :
      (onVariables (attempt S P t).solution).get =
          c • (onVariables (attempt S P s).solution).get ∧
        (attempt S P t).direction.multiplier.get =
          c • (attempt S P s).direction.multiplier.get := by
    refine Problem.eq_of_isUnit hH hS hunit (fun e he => ?_) (fun e he => ?_) fun i => ?_
    · rw [dotProduct_smul, State.Coherent.normal_dotProduct_solution,
        State.Coherent.normal_dotProduct_solution, hheld e he, smul_eq_mul]
    · rw [Pi.smul_apply, get_multiplier_direction_of_inactive S P t (hsame.inactive he),
        get_multiplier_direction_of_inactive S P s he, smul_zero]
    · rw [P.tilt_smul, Pi.smul_apply, ht.coherent.tilt_direction hH hS hzt,
        hs.coherent.tilt_direction hH hS hzs, hshrunk.balance, smul_neg, smul_eq_mul]
  refine ⟨fun e => ?_, fun e => congrFun hmultiplier e⟩
  rw [← State.Coherent.normal_dotProduct_solution, hpoint, dotProduct_smul,
    State.Coherent.normal_dotProduct_solution, smul_eq_mul]

/-- A later state with the same working set is at the end of the step, and its own step in the same
direction stops at the same entry at once. -/
theorem length_eq_of_sameWorkingSet {e : Fin (n + m)}
    (hindex : (attempt S P s).limit.index = some e) (hshrunk : State.Shrunk P c s t)
    (hc : c ≤ 1 - (attempt S P s).limit.length) :
    (attempt S P s).limit.length = 1 - c ∧ (0 < c → (attempt S P t).limit.length ≤ 0) := by
  obtain ⟨a, hproposes, hlength, -⟩ := State.Coherent.proposes_of_index hP hindex
  have hne := hs.coherent.not_isEquality_of_index hP hindex
  obtain ⟨hvalue, hmultiplier⟩ :=
    full_step_eq hP hH hS hs ht hzs hzt hsame hunit
  obtain ⟨hdvalue, hdmultiplier⟩ :=
    direction_eq_mul hP hH hS hs ht hzs hzt hsame hunit hshrunk
  have htvalue : t.value.get e =
      s.value.get e + (1 - c) * (attempt S P s).direction.value.get e := by
    have h := hvalue e
    rw [hdvalue e] at h
    linarith
  have htmultiplier : t.active.multiplier.get e =
      s.active.multiplier.get e + (1 - c) * (attempt S P s).direction.multiplier.get e := by
    have h := hmultiplier e
    rw [hdmultiplier e] at h
    linarith
  have hstatus : s.active.status.get e = t.active.status.get e := (hsame e).2 hne
  have hwithin := ht.inequalities e hne
  have hadmits := ht.coherent.admits e
  rw [htvalue] at hwithin
  rw [← hstatus, htmultiplier] at hadmits
  have hlengtha : a.length = 1 - c :=
    hproposes.length_eq (hs.inequalities e hne) (by linarith) hwithin hadmits
  refine ⟨hlength.trans hlengtha, fun hpos => ?_⟩
  obtain ⟨a', hagain, hzero⟩ := hproposes.again (hs.inequalities e hne) hpos
  rw [hlengtha, ← htvalue, ← htmultiplier, ← hdvalue e, ← hdmultiplier e, hstatus] at hagain
  rw [← hzero]
  exact length_stepLimit_le ((get_candidates_eq_some_iff (hP e).1 (hP e).2).mpr hagain)

end Target

theorem State.Shrunk.trans {r : State ℝ n m} {k : ℝ} (hst : State.Shrunk P c s t)
    (htr : State.Shrunk P k t r) : State.Shrunk P (c * k) s r := by
  refine ⟨fun i => ?_, fun e heq b hb => ?_⟩
  · rw [htr.balance, hst.balance]
    ring
  · rw [htr.gap e heq b hb, hst.gap e heq b hb]
    ring

section Run

variable (hunit : 0 ≤ unit) (hP : P.Proper) (hH : P.hessian.toMatrix.IsSymm) (hS : S.Covers P)
include hunit hP hH hS

theorem State.Anchored.shrunk_iterate (hs : s.Anchored P)
    (hregular : ¬ (attempt S P s).IsFatal unit) :
    State.Shrunk P (1 - (attempt S P s).limit.length) s (QuadraticProgram.iterate unit S P s) := by
  have hz := solves_of_not_isFatal hunit hS hregular
  have hx := hs.inequalities
  rw [iterate_of_not_isFatal hregular]
  refine ⟨fun i => hs.coherent.balance_advanced hP hH hS hz hx.variables i, fun e heq b hb => ?_⟩
  obtain ⟨b', hb', -, hgap⟩ := hs.coherent.gap_advanced hP hS hz hx heq
  obtain rfl : b' = b := EReal.coe_injective (hb'.symm.trans hb)
  exact hgap

theorem State.Anchored.done_iterate_of_shrunk (ht : t.Anchored P) (hst : State.Shrunk P 0 s t) :
    (QuadraticProgram.iterate unit S P t).done = true := by
  by_cases hfatal : (attempt S P t).IsFatal unit
  · obtain ⟨outcome, index, length, -, hnext⟩ := iterate_of_isFatal hfatal
    rw [hnext]
    rfl
  have hregular : ¬ (attempt S P t).IsSingular unit := fun h => hfatal (Or.inl h)
  rw [iterate_of_not_isFatal hfatal]
  refine Option.isNone_iff_eq_none.mpr (State.Coherent.index_eq_none_of_direction_eq_zero hP
    (ht.coherent.direction_eq_zero_of_balanced hP hH hS (solves_attempt hunit hS hregular)
      (isUnit_modify_of_not_isSingular hunit hS hregular)
      (fun i => by rw [hst.balance i, zero_mul]) fun e he => ?_))
  by_cases heq : P.IsEquality e
  · have hbounds := Problem.isEquality_iff.mp heq
    have hbound := ht.coherent.full_step_of_isActive hP hS (solves_attempt hunit hS hregular) he
    rw [Status.boundOn_of_eq hbounds] at hbound ⊢
    have hgap := hst.gap e heq _ hbound.symm
    rw [zero_mul, sub_eq_zero] at hgap
    rw [hgap, hbound]
  · exact ht.heldOnBounds e heq he

/-- The states after a step have at most the rest of it left, and after a full step that was limited
all the same there is one more iteration at most. -/
theorem Follows.shrunk (hs : s.Anchored P) (hregular : ¬ (attempt S P s).IsFatal unit)
    (hst : Follows unit S P s t) :
    t.Anchored P ∧ (∃ c, 0 ≤ c ∧ c ≤ 1 - (attempt S P s).limit.length ∧ State.Shrunk P c s t) ∧
      ((attempt S P s).limit.length = 1 → t = iterate unit S P s ∨ t.done = true) := by
  induction hst with
  | next =>
    have hle : (attempt S P s).limit.length ≤ 1 := length_stepLimit_le_one _
    exact ⟨hs.iterate hunit hP hS,
      ⟨_, sub_nonneg.mpr hle, le_rfl, hs.shrunk_iterate hunit hP hH hS hregular⟩,
      fun _ => Or.inl rfl⟩
  | @later t _ hdone ih =>
    obtain ⟨ht, ⟨c, hc0, hc, hshrunk⟩, hlast⟩ := ih
    refine ⟨ht.iterate hunit hP hS, ?_, fun hone => ?_⟩
    · by_cases hfatal : (attempt S P t).IsFatal unit
      · obtain ⟨outcome, index, length, -, hnext⟩ := iterate_of_isFatal hfatal
        rw [hnext]
        exact ⟨c, hc0, hc, hshrunk.balance, hshrunk.gap⟩
      · have hle : (attempt S P t).limit.length ≤ 1 := length_stepLimit_le_one _
        have hnonneg := ht.coherent.length_nonneg hP S
        refine ⟨_, mul_nonneg hc0 (sub_nonneg.mpr hle), ?_,
          hshrunk.trans (ht.shrunk_iterate hunit hP hH hS hfatal)⟩
        exact (mul_le_of_le_one_right hc0 (by linarith)).trans hc
    · obtain rfl : c = 0 := le_antisymm (by linarith) hc0
      exact Or.inr (ht.done_iterate_of_shrunk hunit hP hH hS hshrunk)

theorem Follows.not_sameWorkingSet (hs : s.Anchored P) (hst : Follows unit S P s t)
    (hdone : t.done = false) (hpos : 0 < (attempt S P t).limit.length) :
    ¬ P.SameWorkingSet s.active.status t.active.status := by
  intro hsame
  have hnext : (iterate unit S P s).done = false := by
    by_contra hne
    rw [hst.done_of_done_next ((Bool.not_eq_false _).mp hne)] at hdone
    exact Bool.noConfusion hdone
  have hfatal : ¬ (attempt S P s).IsFatal unit := by
    intro hfatal
    obtain ⟨outcome, index, length, -, heq⟩ := iterate_of_isFatal hfatal
    rw [heq] at hnext
    exact Bool.noConfusion hnext
  have hregular : ¬ (attempt S P s).IsSingular unit := fun h => hfatal (Or.inl h)
  have hregulart : ¬ (attempt S P t).IsSingular unit := fun h =>
    hregular ((isSingular_attempt_congr fun e => (hsame e).1).mpr h)
  obtain ⟨e, hindex⟩ : ∃ e, (attempt S P s).limit.index = some e := by
    rw [iterate_of_not_isFatal hfatal] at hnext
    exact Option.isSome_iff_exists.mp (Option.isNone_eq_false_iff.mp hnext)
  obtain ⟨ht, ⟨c, hc0, hc, hshrunk⟩, hlast⟩ := hst.shrunk hunit hP hH hS hs hfatal
  obtain ⟨hlength, hstuck⟩ := length_eq_of_sameWorkingSet hP hH hS hs ht
    (solves_attempt hunit hS hregular) (solves_attempt hunit hS hregulart) hsame
    (isUnit_modify_of_not_isSingular hunit hS hregular) hindex hshrunk hc
  rcases hc0.lt_or_eq with hc0 | rfl
  · exact absurd (hstuck hc0) (not_le.mpr hpos)
  -- nothing was left after the step, so there is no state between the two
  · rcases hlast (hlength.trans (sub_zero 1)) with rfl | hlast
    · have hflip := hs.coherent.isActive_advanced_of_index hP hindex
      have hsame := (hsame e).1
      rw [iterate_of_not_isFatal hfatal, hflip] at hsame
      exact iff_not_self hsame
    · rw [hlast] at hdone
      exact Bool.noConfusion hdone

end Run

/-- No working set that a run has used is the start of a step of positive length again, so the steps
of positive length are no more than the ways to hold or to free the inequalities. -/
theorem working_set_never_returns (hunit : 0 ≤ unit) (hP : P.Proper)
    (hH : P.hessian.toMatrix.IsSymm) (hS : S.Covers P)
    (hg : P.InequalitiesHold (P.valuesAt g.point)) (hheld : (State.start P g).HeldOnBounds P)
    (budget : ℕ) :
    let run := attempts unit S P budget (State.start P g)
    (run.Pairwise fun a b => 0 < b.2.limit.length →
        ¬ P.SameWorkingSet a.1.active.status b.1.active.status) ∧
      (run.filter fun a => decide (0 < a.2.limit.length)).length ≤
        3 ^ Fintype.card {e : Fin (n + m) // ¬ P.IsEquality e} := by
  intro run
  have hreached : ∀ a ∈ run, Reached unit S P g a.1 := by
    intro a ha
    rcases (mem_attempts ha).2.2 with heq | hlater
    · exact heq ▸ .start
    · exact hlater.reached .start
  have hpairwise : run.Pairwise fun a b => 0 < b.2.limit.length →
      ¬ P.SameWorkingSet a.1.active.status b.1.active.status := by
    refine (pairwise_attempts budget _).imp_of_mem fun {a b} ha hb hab hpos => ?_
    obtain ⟨hdone, hattempt, -⟩ := mem_attempts hb
    rw [hattempt] at hpos
    exact hab.not_sameWorkingSet hunit hP hH hS
      ((hreached a ha).anchored hunit hP hS hg hheld) hdone hpos
  refine ⟨hpairwise, ?_⟩
  let moves := run.filter fun a => decide (0 < a.2.limit.length)
  have hdistinct : (moves.map fun a => a.1.sides P).Nodup := by
    refine List.pairwise_map.mpr (List.pairwise_filter.mpr (hpairwise.imp_of_mem ?_))
    intro a b ha hb hab _ hpos hsides
    exact hab (of_decide_eq_true hpos)
      (((hreached a ha).coherent hP).sameWorkingSet_of_sides ((hreached b hb).coherent hP) hsides)
  have hlength := hdistinct.length_le_card
  rwa [List.length_map, Fintype.card_fun, show Fintype.card SignType = 3 from rfl] at hlength

/-- From one above the bound a run takes two steps of positive length, from different working sets,
and there is one inequality. -/
theorem working_set_never_returns_above :
    let S := Problem.aboveOne.analyze .natural
    let s := State.start Problem.aboveOne .above
    let t := stateAfter 0 S Problem.aboveOne .above 1
    let run := attempts 0 S Problem.aboveOne 9 s
    Problem.aboveOne.Proper ∧ Problem.aboveOne.hessian.toMatrix.IsSymm ∧
      S.Covers Problem.aboveOne ∧
      Problem.aboveOne.InequalitiesHold (Problem.aboveOne.valuesAt PrimalDual.above.point) ∧
      s.HeldOnBounds Problem.aboveOne ∧
      run.map (fun a => a.2.limit.length) = [1 / 2, 1] ∧
      ¬ Problem.aboveOne.SameWorkingSet s.active.status t.active.status ∧
      (run.filter fun a => decide (0 < a.2.limit.length)).length ≤
        3 ^ Fintype.card {e : Fin (1 + 0) // ¬ Problem.aboveOne.IsEquality e} := by
  intro S s t run
  have hS := covers_analyze Problem.aboveOne .natural
  have hsymm : Problem.aboveOne.hessian.toMatrix.IsSymm :=
    Problem.posDef_hessian_aboveOne.isHermitian
  have hheld : s.HeldOnBounds Problem.aboveOne := State.heldOnBounds_start get_multiplier_above
  have hfirst : (attempt S Problem.aboveOne s).limit.length = 1 / 2 := (limit_above .natural).2.1
  have hsecond : (attempt S Problem.aboveOne t).limit.length = 1 :=
    stepLimit_of_no_index (index_attempt_above .natural)
  have hlist : run = [(s, attempt S Problem.aboveOne s), (t, attempt S Problem.aboveOne t)] :=
    attempts_above .natural 7
  obtain ⟨hpairwise, hbound⟩ := working_set_never_returns le_rfl Problem.proper_aboveOne hsymm hS
    Problem.inequalitiesHold_above hheld 9
  have hpairwise : run.Pairwise fun a b => 0 < b.2.limit.length →
      ¬ Problem.aboveOne.SameWorkingSet a.1.active.status b.1.active.status := hpairwise
  rw [hlist, List.pairwise_pair] at hpairwise
  refine ⟨Problem.proper_aboveOne, hsymm, hS, Problem.inequalitiesHold_above, hheld, ?_,
    hpairwise (one_pos.trans_eq hsecond.symm), hbound⟩
  rw [hlist, List.map_cons, List.map_cons, List.map_nil, hfirst, hsecond]

end QuadraticProgram
