import QuadraticProgram.Proofs.Optimality
import QuadraticProgram.Proofs.Run.WorkingSet

/-! # Steps of length zero

Steps of length zero leave the point and the multipliers where they are and exchange entries that
lie on a bound without a multiplier. Two active sets at the same point give two directions, and a
convex objective bounds the sum over the entries of the products of their differences. Each entry
before the one that stops both steps contributes nothing negative, and the entry itself, held for
one of them and free for the other, something positive. So between two exchanges of one entry there
is an exchange of a later one, and that cannot go on.
-/
namespace QuadraticProgram
open Matrix

variable {n m : ℕ} {unit : ℝ} {S : Analysis n m} {P : Problem ℝ EReal n m}
variable {g : PrimalDual ℝ n m} {s t : State ℝ n m}

section Entry

variable {lb ub : EReal} {v l d d' δ δ' : ℝ} {a b : Status}

def Stuck (lb ub : EReal) (v d l δ : ℝ) (a : Status) : Prop :=
  ∃ c, Proposes lb ub v d l δ a c ∧ c.length ≤ 0

theorem stuck_inactive_iff_of_upper (hle : lb ≤ ub) (hne : lb ≠ ub) (hv : (v : EReal) = ub) :
    Stuck lb ub v d l δ .inactive ↔ 0 < d := by
  constructor
  · rintro ⟨c, hc, hlength⟩
    cases hc with
    | upperBound _ hd => exact hd
    | @lowerBound r hlb hd _ =>
      subst hv hlb
      have hlt : r < v := EReal.coe_lt_coe_iff.mp (hle.lt_of_ne hne)
      rw [min_eq_left (by linarith)] at hlength
      exact absurd (div_pos_of_neg_of_neg (by linarith) hd) (not_lt.mpr hlength)
  · intro hd
    refine ⟨_, .upperBound hv.symm hd (by linarith), ?_⟩
    rw [sub_self, max_self, zero_div]

theorem stuck_inactive_iff_of_lower (hle : lb ≤ ub) (hne : lb ≠ ub) (hv : (v : EReal) = lb) :
    Stuck lb ub v d l δ .inactive ↔ d < 0 := by
  constructor
  · rintro ⟨c, hc, hlength⟩
    cases hc with
    | @upperBound r hub hd _ =>
      subst hv hub
      have hlt : v < r := EReal.coe_lt_coe_iff.mp (hle.lt_of_ne hne)
      rw [max_eq_left (by linarith)] at hlength
      exact absurd (div_pos (by linarith) hd) (not_lt.mpr hlength)
    | lowerBound _ hd => exact hd
  · intro hd
    refine ⟨_, .lowerBound hv.symm hd (by linarith), ?_⟩
    rw [sub_self, min_self, zero_div]

theorem stuck_upper_iff (hne : lb ≠ ub) : Stuck lb ub v d 0 δ .upper ↔ δ < 0 := by
  constructor
  · rintro ⟨c, hc, -⟩
    cases hc with
    | upper _ hδ => exact hδ
  · intro hδ
    refine ⟨_, .upper hne hδ (by linarith), ?_⟩
    rw [neg_zero, zero_div]

theorem stuck_lower_iff (hne : lb ≠ ub) : Stuck lb ub v d 0 δ .lower ↔ 0 < δ := by
  constructor
  · rintro ⟨c, hc, -⟩
    cases hc with
    | lower _ hδ => exact hδ
  · intro hδ
    refine ⟨_, .lower hne hδ (by linarith), ?_⟩
    rw [neg_zero, zero_div]

structure Pinned (lb ub : EReal) (v l d δ : ℝ) (a : Status) : Prop where
  admits : a.Admits lb ub l
  free : a = .inactive → δ = 0
  held : a.IsActive → ((v + d : ℝ) : EReal) = a.boundOn lb ub
  onBound : lb ≠ ub → a.IsActive → (v : EReal) = a.boundOn lb ub

namespace Pinned

theorem direction_eq_zero (h : Pinned lb ub v l d δ a) (hne : lb ≠ ub) (ha : a.IsActive) :
    d = 0 := by
  have hheld := h.held ha
  rw [← h.onBound hne ha] at hheld
  have hheld := EReal.coe_injective hheld
  linarith

theorem mul_sub_eq_zero (ha : Pinned lb ub v l d δ a) (hb : Pinned lb ub v l d' δ' b)
    (hab : a.IsActive ↔ b.IsActive) : (δ - δ') * (d - d') = 0 := by
  by_cases hfree : a = .inactive
  · have hfreeb : b = .inactive := not_not.mp fun hactive => hab.mpr hactive hfree
    rw [ha.free hfree, hb.free hfreeb, sub_self, zero_mul]
  · have hheld := ha.held hfree
    have hheldb := hb.held (hab.mp hfree)
    suffices hd : d = d' by rw [hd, sub_self, mul_zero]
    by_cases heq : lb = ub
    · rw [Status.boundOn_of_eq heq] at hheld hheldb
      have hfull := EReal.coe_injective (hheld.trans hheldb.symm)
      linarith
    · rw [ha.direction_eq_zero heq hfree, hb.direction_eq_zero heq (hab.mp hfree)]

theorem mul_sub_of_free_of_held (hle : lb ≤ ub) (ha : Pinned lb ub v l d δ .inactive)
    (hb : Pinned lb ub v l d' δ' b) (hactive : b.IsActive) :
    (¬ Stuck lb ub v d l δ .inactive → ¬ Stuck lb ub v d' l δ' b → 0 ≤ (δ - δ') * (d - d')) ∧
      (Stuck lb ub v d l δ .inactive → Stuck lb ub v d' l δ' b → 0 < (δ - δ') * (d - d')) := by
  obtain ⟨rfl, hne⟩ := ha.admits
  obtain rfl := ha.free rfl
  obtain rfl := hb.direction_eq_zero hne hactive
  have hon := hb.onBound hne hactive
  rw [zero_sub, sub_zero]
  rcases hb.admits.eq_lower_or_inactive_or_upper with rfl | rfl | rfl
  · rw [stuck_inactive_iff_of_lower hle hne hon, stuck_lower_iff hne]
    refine ⟨fun hd hδ => ?_, fun hd hδ => mul_pos_of_neg_of_neg (by linarith) hd⟩
    exact mul_nonneg (by linarith) (by linarith)
  · exact absurd rfl hactive
  · rw [stuck_inactive_iff_of_upper hle hne hon, stuck_upper_iff hne]
    refine ⟨fun hd hδ => ?_, fun hd hδ => mul_pos (by linarith) hd⟩
    exact mul_nonneg_of_nonpos_of_nonpos (by linarith) (by linarith)

theorem mul_sub_of_ne (hle : lb ≤ ub) (ha : Pinned lb ub v l d δ a)
    (hb : Pinned lb ub v l d' δ' b) (hab : ¬ (a.IsActive ↔ b.IsActive)) :
    (¬ Stuck lb ub v d l δ a → ¬ Stuck lb ub v d' l δ' b → 0 ≤ (δ - δ') * (d - d')) ∧
      (Stuck lb ub v d l δ a → Stuck lb ub v d' l δ' b → 0 < (δ - δ') * (d - d')) := by
  by_cases hfree : a = .inactive
  · subst hfree
    have hactive : b.IsActive := fun hfreeb => hab (by rw [hfreeb])
    exact ha.mul_sub_of_free_of_held hle hb hactive
  · have hfreeb : b = .inactive := not_not.mp fun hactive => hab (iff_of_true hfree hactive)
    subst hfreeb
    have hswap : (δ - δ') * (d - d') = (δ' - δ) * (d' - d) := by ring
    obtain ⟨hnonneg, hpos⟩ := hb.mul_sub_of_free_of_held hle ha hfree
    rw [hswap]
    exact ⟨fun h h' => hnonneg h' h, fun h h' => hpos h' h⟩

end Pinned

end Entry

section Pair

variable (hP : P.Proper) (hS : S.Covers P) (hs : s.Anchored P) (ht : t.Anchored P)

section Solved

variable (hzs : S.Solves P s.value s.active (attempt S P s).solution)
  (hzt : S.Solves P t.value t.active (attempt S P t).solution)

include hP hS hs hzs in
theorem State.Anchored.pinned (e : Fin (n + m)) :
    Pinned (P.lower.get e) (P.upper.get e) (s.value.get e) (s.active.multiplier.get e)
      ((attempt S P s).direction.value.get e) ((attempt S P s).direction.multiplier.get e)
      (s.active.status.get e) :=
  ⟨hs.coherent.admits e, get_multiplier_direction_of_inactive S P s,
    hs.coherent.full_step_of_isActive hP hS hzs,
    fun hne => hs.heldOnBounds e fun heq => hne (Problem.isEquality_iff.mp heq)⟩

include hS hs ht hzs hzt in
/-- From one point with one choice of multipliers, two directions of a convex objective only ever
differ against each other. -/
theorem sum_mul_sub_nonpos (hH : P.hessian.toMatrix.PosSemidef) (hvalue : t.value = s.value)
    (hmultiplier : t.active.multiplier = s.active.multiplier) :
    ∑ e, ((attempt S P s).direction.multiplier.get e -
          (attempt S P t).direction.multiplier.get e) *
        ((attempt S P s).direction.value.get e - (attempt S P t).direction.value.get e) ≤ 0 := by
  let δ := (attempt S P s).direction.multiplier.get - (attempt S P t).direction.multiplier.get
  let d := (onVariables (attempt S P s).solution).get - (onVariables (attempt S P t).solution).get
  have hpoint : t.point = s.point := congrArg onVariables hvalue
  have htilt : P.tilt d δ = 0 := by
    funext i
    rw [P.tilt_sub, Pi.sub_apply, hs.coherent.tilt_direction hH.isHermitian hS hzs,
      ht.coherent.tilt_direction hH.isHermitian hS hzt, hpoint, hmultiplier, sub_self,
      Pi.zero_apply]
  have hwork := P.dotProduct_tilt d δ
  have hcurvature : 0 ≤ d ⬝ᵥ P.hessian.toMatrix *ᵥ d := hH.dotProduct_mulVec_nonneg d
  have hnormal : ∀ e, P.normal e ⬝ᵥ d =
      (attempt S P s).direction.value.get e - (attempt S P t).direction.value.get e := by
    intro e
    rw [dotProduct_sub, State.Coherent.normal_dotProduct_solution,
      State.Coherent.normal_dotProduct_solution]
  rw [htilt, dotProduct_zero] at hwork
  calc ∑ e, δ e * ((attempt S P s).direction.value.get e -
          (attempt S P t).direction.value.get e)
      = ∑ e, δ e * (P.normal e ⬝ᵥ d) := Finset.sum_congr rfl fun e _ => by rw [hnormal e]
    _ ≤ 0 := by linarith

end Solved

def State.StuckAt (S : Analysis n m) (P : Problem ℝ EReal n m) (s : State ℝ n m)
    (e : Fin (n + m)) : Prop :=
  Stuck (P.lower.get e) (P.upper.get e) (s.value.get e) ((attempt S P s).direction.value.get e)
    (s.active.multiplier.get e) ((attempt S P s).direction.multiplier.get e)
    (s.active.status.get e)

section Index

variable {e e' : Fin (n + m)} (he : (attempt S P s).limit.index = some e)
include hP he

theorem State.stuckAt_of_index (hzero : (attempt S P s).limit.length ≤ 0) : s.StuckAt S P e := by
  obtain ⟨c, hproposes, hlength, -⟩ := State.Coherent.proposes_of_index hP he
  exact ⟨c, hproposes, hlength ▸ hzero⟩

theorem State.Anchored.not_stuckAt_of_lt (hs : s.Anchored P) (hlt : e' < e) :
    ¬ s.StuckAt S P e' := by
  rintro ⟨c, hproposes, hzero⟩
  have hcandidate := (get_candidates_eq_some_iff (hP e').1 (hP e').2).mpr hproposes
  have hless := length_stepLimit_lt he hlt hcandidate
  have hnonneg : 0 ≤ (attempt S P s).limit.length := hs.coherent.length_nonneg hP S
  exact absurd (hnonneg.trans_lt hless) (not_lt.mpr hzero)

end Index

include hP hS hs ht in
/-- Where two active sets at one point are both stopped at one entry, and hold the same of the later
entries, they agree about this entry. -/
theorem State.Anchored.isActive_iff_of_index (hH : P.hessian.toMatrix.PosSemidef)
    (hzs : S.Solves P s.value s.active (attempt S P s).solution)
    (hzt : S.Solves P t.value t.active (attempt S P t).solution) (hvalue : t.value = s.value)
    (hmultiplier : t.active.multiplier = s.active.multiplier) {e : Fin (n + m)}
    (hes : (attempt S P s).limit.index = some e) (het : (attempt S P t).limit.index = some e)
    (hzeros : (attempt S P s).limit.length ≤ 0) (hzerot : (attempt S P t).limit.length ≤ 0)
    (hlater : ∀ e' > e,
      (s.active.status.get e').IsActive ↔ (t.active.status.get e').IsActive) :
    (s.active.status.get e).IsActive ↔ (t.active.status.get e).IsActive := by
  by_contra hdiffer
  have hpinned := hs.pinned hP hS hzs
  have hpinnedt := ht.pinned hP hS hzt
  have hstuckt : ∀ e', t.StuckAt S P e' ↔ Stuck (P.lower.get e') (P.upper.get e')
      (s.value.get e') ((attempt S P t).direction.value.get e') (s.active.multiplier.get e')
      ((attempt S P t).direction.multiplier.get e') (t.active.status.get e') := by
    intro e'
    rw [State.StuckAt, hvalue, hmultiplier]
  rw [hvalue, hmultiplier] at hpinnedt
  have hstops := State.stuckAt_of_index hP hes hzeros
  have hstopst := (hstuckt e).mp (State.stuckAt_of_index hP het hzerot)
  have hpos := ((hpinned e).mul_sub_of_ne (P.lower_le_upper e) (hpinnedt e) hdiffer).2 hstops
    hstopst
  refine absurd (sum_mul_sub_nonpos hS hs ht hzs hzt hH hvalue hmultiplier) (not_le.mpr ?_)
  refine Finset.sum_pos' (fun e' _ => ?_) ⟨e, Finset.mem_univ e, hpos⟩
  by_cases hagree : (s.active.status.get e').IsActive ↔ (t.active.status.get e').IsActive
  · exact ((hpinned e').mul_sub_eq_zero (hpinnedt e') hagree).ge
  rcases lt_trichotomy e' e with hlt | rfl | hgt
  · -- an earlier entry stops neither step
    have hmoves := hs.not_stuckAt_of_lt hP hes hlt
    have hmovest := ht.not_stuckAt_of_lt hP het hlt
    rw [hstuckt e'] at hmovest
    exact ((hpinned e').mul_sub_of_ne (P.lower_le_upper e') (hpinnedt e') hagree).1 hmoves hmovest
  · exact hpos.le
  · exact absurd (hlater e' hgt) hagree

end Pair

end QuadraticProgram
