import Mathlib.Tactic.Linarith
import QuadraticProgram.StepLength
import QuadraticProgram.Proofs.ActiveSet
import QuadraticProgram.Proofs.Exact.Dense

/-! # The longest step is safe

The proposals of an entry are listed by cases in real numbers. A status that fits its multiplier
only proposes lengths in `[0, 1]`. A step no longer than the proposal of an entry keeps its value
within the bounds and its multiplier on its side, and the entry that limits the step reaches its
bound exactly.
-/
namespace QuadraticProgram

variable {lb ub : EReal} {v d l δ t : ℝ} {s : Status} {c : Candidate ℝ}

/-- The proposals of an entry with value `v` and multiplier `l` along a step that changes them by
`d` and `δ`. -/
inductive Proposes (lb ub : EReal) (v d l δ : ℝ) : Status → Candidate ℝ → Prop
  | upperBound {u : ℝ} (hub : ub = u) (hd : 0 < d) (hle : u ≤ v + d) :
      Proposes lb ub v d l δ .inactive ⟨max (u - v) 0 / d, .upperBound⟩
  | lowerBound {b : ℝ} (hlb : lb = b) (hd : d < 0) (hle : v + d ≤ b) :
      Proposes lb ub v d l δ .inactive ⟨min (b - v) 0 / d, .lowerBound⟩
  | lower (hne : lb ≠ ub) (hδ : 0 < δ) (hle : 0 ≤ l + δ) :
      Proposes lb ub v d l δ .lower ⟨-l / δ, .signChange⟩
  | upper (hne : lb ≠ ub) (hδ : δ < 0) (hle : l + δ ≤ 0) :
      Proposes lb ub v d l δ .upper ⟨-l / δ, .signChange⟩

theorem exists_coe_of_le {b : EReal} {a : ℝ} (hbot : b ≠ ⊥) (h : b ≤ a) : ∃ r : ℝ, b = r :=
  ⟨b.toReal, (EReal.coe_toReal (ne_top_of_le_ne_top (EReal.coe_ne_top a) h) hbot).symm⟩

theorem exists_coe_of_ge {b : EReal} {a : ℝ} (htop : b ≠ ⊤) (h : a ≤ b) : ∃ r : ℝ, b = r :=
  ⟨b.toReal, (EReal.coe_toReal htop (ne_bot_of_le_ne_bot (EReal.coe_ne_bot a) h)).symm⟩

theorem toScalar_max_sub (u v : ℝ) :
    Bound.toScalar (max ((u : EReal) - Bound.ofScalar v) (Bound.ofScalar 0)) = max (u - v) 0 := by
  change (max ((u : EReal) - (v : EReal)) ((0 : ℝ) : EReal)).toReal = _
  rw [← EReal.coe_sub, ← EReal.coe_strictMono.monotone.map_max, EReal.toReal_coe]

theorem toScalar_min_sub (b v : ℝ) :
    Bound.toScalar (min ((b : EReal) - Bound.ofScalar v) (Bound.ofScalar 0)) = min (b - v) 0 := by
  change (min ((b : EReal) - (v : EReal)) ((0 : ℝ) : EReal)).toReal = _
  rw [← EReal.coe_sub, ← EReal.coe_strictMono.monotone.map_min, EReal.toReal_coe]

theorem candidate?_eq_some_iff (hlb : lb ≠ ⊤) (hub : ub ≠ ⊥) :
    candidate? lb ub v d s l δ = some c ↔ Proposes lb ub v d l δ s c := by
  constructor
  · intro h
    cases s with
    | inactive =>
      simp only [candidate?] at h
      split_ifs at h with hup hlow
      · obtain ⟨u, rfl⟩ := exists_coe_of_le hub hup.2
        rw [toScalar_max_sub] at h
        cases h
        exact .upperBound rfl hup.1 (EReal.coe_le_coe_iff.mp hup.2)
      · obtain ⟨b, rfl⟩ := exists_coe_of_ge hlb hlow.2
        rw [toScalar_min_sub] at h
        cases h
        exact .lowerBound rfl hlow.1 (EReal.coe_le_coe_iff.mp hlow.2)
    | lower =>
      simp only [candidate?, same_ereal] at h
      split_ifs at h with hcond
      cases h
      exact .lower hcond.1 hcond.2.1 hcond.2.2
    | upper =>
      simp only [candidate?, same_ereal] at h
      split_ifs at h with hcond
      cases h
      exact .upper hcond.1 hcond.2.1 hcond.2.2
    | fixed number foreign => simp [candidate?] at h
  · intro h
    cases h with
    | upperBound hu hd hle =>
      subst hu
      simp only [candidate?]
      rw [if_pos ⟨hd, EReal.coe_le_coe_iff.mpr hle⟩, toScalar_max_sub]
    | lowerBound hb hd hle =>
      subst hb
      simp only [candidate?]
      rw [if_neg fun hup => absurd hup.1 (not_lt.mpr hd.le),
        if_pos ⟨hd, EReal.coe_le_coe_iff.mpr hle⟩, toScalar_min_sub]
    | lower hne hδ hle =>
      simp only [candidate?, same_ereal]
      rw [if_pos ⟨hne, hδ, hle⟩]
    | upper hne hδ hle =>
      simp only [candidate?, same_ereal]
      rw [if_pos ⟨hne, hδ, hle⟩]

theorem get_candidates_eq_some_iff {k : ℕ} {lb ub : Vector EReal k} {value : Vector ℝ k}
    {s : ActiveSet ℝ k} {d : Direction ℝ k} {e : Fin k} (hlb : lb.get e ≠ ⊤) (hub : ub.get e ≠ ⊥) :
    (candidates lb ub value s d).get e = some c ↔
      Proposes (lb.get e) (ub.get e) (value.get e) (d.value.get e) (s.multiplier.get e)
        (d.multiplier.get e) (s.status.get e) c := by
  rw [get_candidates]
  exact candidate?_eq_some_iff hlb hub

namespace Proposes

/-- Only what the full step meets is proposed. -/
theorem length_le_one (h : Proposes lb ub v d l δ s c) : c.length ≤ 1 := by
  cases h with
  | @upperBound u hu hd hle =>
    refine (div_le_one hd).mpr (max_le ?_ hd.le)
    linarith
  | @lowerBound b hb hd hle =>
    refine (div_le_one_of_neg hd).mpr (le_min ?_ hd.le)
    linarith
  | lower hne hδ hle =>
    refine (div_le_one hδ).mpr ?_
    linarith
  | upper hne hδ hle =>
    refine (div_le_one_of_neg hδ).mpr ?_
    linarith

theorem isValid (h : Proposes lb ub v d l δ s c) (hs : s.Admits lb ub l) : c.IsValid := by
  refine ⟨?_, h.length_le_one⟩
  cases h with
  | upperBound hu hd => exact div_nonneg (le_max_right _ _) hd.le
  | lowerBound hb hd => exact div_nonneg_of_nonpos (min_le_right _ _) hd.le
  | lower hne hδ => exact div_nonneg (neg_nonneg.mpr hs.1) hδ.le
  | upper hne hδ => exact div_nonneg_of_nonpos (neg_nonpos.mpr hs.1) hδ.le

/-- A free value inside its bounds reaches the upper one exactly. -/
theorem value_eq_upper (h : Proposes lb ub v d l δ s c) (hkind : c.kind = .upperBound)
    (hv : v ≤ ub) : ((v + c.length * d : ℝ) : EReal) = ub := by
  cases h with
  | @upperBound u hu hd hle =>
    subst hu
    have hvu : v ≤ u := EReal.coe_le_coe_iff.mp hv
    rw [max_eq_left (by linarith), div_mul_cancel₀ _ hd.ne', add_sub_cancel]
  | _ => cases hkind

theorem value_eq_lower (h : Proposes lb ub v d l δ s c) (hkind : c.kind = .lowerBound)
    (hv : lb ≤ v) : ((v + c.length * d : ℝ) : EReal) = lb := by
  cases h with
  | @lowerBound b hb hd hle =>
    subst hb
    have hbv : b ≤ v := EReal.coe_le_coe_iff.mp hv
    rw [min_eq_left (by linarith), div_mul_cancel₀ _ hd.ne, add_sub_cancel]
  | _ => cases hkind

theorem bounds_ne (h : Proposes lb ub v d l δ s c) (hs : s.Admits lb ub l) : lb ≠ ub := by
  cases h with
  | upperBound => exact hs.2
  | lowerBound => exact hs.2
  | lower hne => exact hne
  | upper hne => exact hne

theorem direction_ne_zero (h : Proposes lb ub v d l δ s c) : d ≠ 0 ∨ δ ≠ 0 := by
  cases h with
  | upperBound _ hd => exact Or.inl hd.ne'
  | lowerBound _ hd => exact Or.inl hd.ne
  | lower _ hδ => exact Or.inr hδ.ne'
  | upper _ hδ => exact Or.inr hδ.ne

/-- The multiplier of the entry that limits a step vanishes by the step itself. -/
theorem multiplier_eq_zero (h : Proposes lb ub v d l δ s c) (hs : s.Admits lb ub l)
    (hfree : s = .inactive → δ = 0) : l + c.length * δ = 0 := by
  cases h with
  | upperBound => rw [hs.1, hfree rfl, mul_zero, add_zero]
  | lowerBound => rw [hs.1, hfree rfl, mul_zero, add_zero]
  | lower hne hδ => rw [div_mul_cancel₀ _ hδ.ne', add_neg_cancel]
  | upper hne hδ => rw [div_mul_cancel₀ _ hδ.ne, add_neg_cancel]

/-- The status that an entry takes when it limits a step fits no multiplier. -/
theorem admits_afterBlocking (h : Proposes lb ub v d l δ s c) (hs : s.Admits lb ub l) :
    (Status.afterBlocking (some c.kind)).Admits lb ub 0 := by
  cases h with
  | upperBound hub => exact ⟨le_rfl, hub ▸ EReal.coe_ne_top _⟩
  | lowerBound hlb => exact ⟨le_rfl, hlb ▸ EReal.coe_ne_bot _⟩
  | lower hne => exact ⟨rfl, hne⟩
  | upper hne => exact ⟨rfl, hne⟩

/-- Nothing lies beyond the length that an entry proposes: its value would be past the bound, or its
multiplier on the wrong side. -/
theorem length_eq (h : Proposes lb ub v d l δ s c) (hv : lb ≤ v ∧ v ≤ ub)
    (hle : c.length ≤ t) (hvt : lb ≤ ((v + t * d : ℝ) : EReal) ∧ ((v + t * d : ℝ) : EReal) ≤ ub)
    (hlt : s.Admits lb ub (l + t * δ)) : c.length = t := by
  refine le_antisymm hle ?_
  cases h with
  | @upperBound u hub hd =>
    subst hub
    have hvu : v ≤ u := EReal.coe_le_coe_iff.mp hv.2
    have hvtu : v + t * d ≤ u := EReal.coe_le_coe_iff.mp hvt.2
    rw [max_eq_left (by linarith), le_div_iff₀ hd]
    linarith
  | @lowerBound b hlb hd =>
    subst hlb
    have hbv : b ≤ v := EReal.coe_le_coe_iff.mp hv.1
    have hbvt : b ≤ v + t * d := EReal.coe_le_coe_iff.mp hvt.1
    rw [min_eq_left (by linarith), le_div_iff_of_neg hd]
    linarith
  | lower hne hδ =>
    rw [le_div_iff₀ hδ]
    linarith [hlt.1]
  | upper hne hδ =>
    rw [le_div_iff_of_neg hδ]
    linarith [hlt.1]

/-- After the length that an entry proposes, it proposes length zero in the same direction. -/
theorem again (h : Proposes lb ub v d l δ s c) (hv : lb ≤ v ∧ v ≤ ub) {k : ℝ} (hk : 0 < k) :
    ∃ c', Proposes lb ub (v + c.length * d) (k * d) (l + c.length * δ) (k * δ) s c' ∧
      c'.length = 0 := by
  cases h with
  | @upperBound u hub hd hle =>
    have hat : v + max (u - v) 0 / d * d = u := by
      have hvu : v ≤ u := EReal.coe_le_coe_iff.mp (hub ▸ hv.2)
      rw [max_eq_left (by linarith), div_mul_cancel₀ _ hd.ne', add_sub_cancel]
    have hkd := mul_pos hk hd
    refine ⟨_, .upperBound hub hkd (by rw [hat]; linarith), ?_⟩
    rw [hat, sub_self, max_self, zero_div]
  | @lowerBound b hlb hd hle =>
    have hat : v + min (b - v) 0 / d * d = b := by
      have hbv : b ≤ v := EReal.coe_le_coe_iff.mp (hlb ▸ hv.1)
      rw [min_eq_left (by linarith), div_mul_cancel₀ _ hd.ne, add_sub_cancel]
    have hkd := mul_neg_of_pos_of_neg hk hd
    refine ⟨_, .lowerBound hlb hkd (by rw [hat]; linarith), ?_⟩
    rw [hat, sub_self, min_self, zero_div]
  | lower hne hδ hle =>
    have hat : l + -l / δ * δ = 0 := by rw [div_mul_cancel₀ _ hδ.ne', add_neg_cancel]
    have hkδ := mul_pos hk hδ
    refine ⟨_, .lower hne hkδ (by rw [hat]; linarith), ?_⟩
    rw [hat, neg_zero, zero_div]
  | upper hne hδ hle =>
    have hat : l + -l / δ * δ = 0 := by rw [div_mul_cancel₀ _ hδ.ne, add_neg_cancel]
    have hkδ := mul_neg_of_pos_of_neg hk hδ
    refine ⟨_, .upper hne hkδ (by rw [hat]; linarith), ?_⟩
    rw [hat, neg_zero, zero_div]

end Proposes

section Within

variable (hlb : lb ≠ ⊤) (hub : ub ≠ ⊥)
include hlb hub

/-- Up to the length its entry proposes, a free value is past a bound only where it started out. -/
theorem between_of_inactive (ht0 : 0 ≤ t) (ht1 : t ≤ 1)
    (ht : ∀ c, candidate? lb ub v d .inactive l δ = some c → t ≤ c.length) :
    min lb (v : EReal) ≤ ((v + t * d : ℝ) : EReal) ∧
      ((v + t * d : ℝ) : EReal) ≤ max ub (v : EReal) := by
  -- only a bound that the full step reaches limits the length, the other one is never met
  have hupper : 0 < d → ((v + t * d : ℝ) : EReal) ≤ max ub (v : EReal) := by
    intro hd
    have hstep : t * d ≤ d := mul_le_of_le_one_left hd.le ht1
    by_cases hle : ub ≤ ((v + d : ℝ) : EReal)
    · obtain ⟨u, rfl⟩ := exists_coe_of_le hub hle
      have hc := ht _ ((candidate?_eq_some_iff hlb hub).mpr
        (.upperBound rfl hd (EReal.coe_le_coe_iff.mp hle)))
      have hroom : max (u - v) 0 = max u v - v := by rw [← max_sub_sub_right, sub_self]
      rw [le_div_iff₀ hd, hroom] at hc
      rw [← EReal.coe_strictMono.monotone.map_max, EReal.coe_le_coe_iff]
      linarith
    · exact ((EReal.coe_le_coe_iff.mpr (by linarith)).trans (not_le.mp hle).le).trans
        (le_max_left _ _)
  have hlower : d < 0 → min lb (v : EReal) ≤ ((v + t * d : ℝ) : EReal) := by
    intro hd
    have hstep : d ≤ t * d := le_mul_of_le_one_left hd.le ht1
    by_cases hle : ((v + d : ℝ) : EReal) ≤ lb
    · obtain ⟨b, rfl⟩ := exists_coe_of_ge hlb hle
      have hc := ht _ ((candidate?_eq_some_iff hlb hub).mpr
        (.lowerBound rfl hd (EReal.coe_le_coe_iff.mp hle)))
      have hroom : min (b - v) 0 = min b v - v := by rw [← min_sub_sub_right, sub_self]
      rw [le_div_iff_of_neg hd, hroom] at hc
      rw [← EReal.coe_strictMono.monotone.map_min, EReal.coe_le_coe_iff]
      linarith
    · exact (min_le_left _ _).trans
        ((not_le.mp hle).le.trans (EReal.coe_le_coe_iff.mpr (by linarith)))
  rcases lt_trichotomy d 0 with hd | rfl | hd
  · have hback : t * d ≤ 0 := mul_nonpos_of_nonneg_of_nonpos ht0 hd.le
    exact ⟨hlower hd, (EReal.coe_le_coe_iff.mpr (by linarith)).trans (le_max_right _ _)⟩
  · simp
  · have hback : 0 ≤ t * d := mul_nonneg ht0 hd.le
    exact ⟨(min_le_right _ _).trans (EReal.coe_le_coe_iff.mpr (by linarith)), hupper hd⟩

/-- A free value within its bounds stays within them up to the length its entry proposes. -/
theorem within_of_inactive (hv : lb ≤ v ∧ v ≤ ub) (ht0 : 0 ≤ t) (ht1 : t ≤ 1)
    (ht : ∀ c, candidate? lb ub v d .inactive l δ = some c → t ≤ c.length) :
    lb ≤ ((v + t * d : ℝ) : EReal) ∧ ((v + t * d : ℝ) : EReal) ≤ ub := by
  have hbetween := between_of_inactive hlb hub ht0 ht1 ht
  rwa [min_eq_left hv.1, max_eq_left hv.2] at hbetween

/-- Up to the length its entry proposes, the multiplier of an inequality on its lower bound does not
become positive. -/
theorem multiplier_nonpos_of_lower (hne : lb ≠ ub) (hl : l ≤ 0) (ht0 : 0 ≤ t) (ht1 : t ≤ 1)
    (ht : ∀ c, candidate? lb ub v d .lower l δ = some c → t ≤ c.length) : l + t * δ ≤ 0 := by
  rcases le_or_gt δ 0 with hδ | hδ
  · linarith [mul_nonpos_of_nonneg_of_nonpos ht0 hδ]
  · by_cases hle : 0 ≤ l + δ
    · have hc := ht _ ((candidate?_eq_some_iff hlb hub).mpr (.lower hne hδ hle))
      rw [le_div_iff₀ hδ] at hc
      linarith
    · linarith [mul_le_of_le_one_left hδ.le ht1]

/-- Up to the length its entry proposes, the multiplier of an inequality on its upper bound does not
become negative. -/
theorem multiplier_nonneg_of_upper (hne : lb ≠ ub) (hl : 0 ≤ l) (ht0 : 0 ≤ t) (ht1 : t ≤ 1)
    (ht : ∀ c, candidate? lb ub v d .upper l δ = some c → t ≤ c.length) : 0 ≤ l + t * δ := by
  rcases le_or_gt 0 δ with hδ | hδ
  · linarith [mul_nonneg ht0 hδ]
  · by_cases hle : l + δ ≤ 0
    · have hc := ht _ ((candidate?_eq_some_iff hlb hub).mpr (.upper hne hδ hle))
      rw [le_div_iff_of_neg hδ] at hc
      linarith
    · linarith [le_mul_of_le_one_left hδ.le ht1]

/-- Up to the length its entry proposes, a multiplier keeps its side. Equalities change theirs. -/
theorem admits_followSign_move (hs : s.Admits lb ub l) (hfree : s = .inactive → δ = 0)
    (ht0 : 0 ≤ t) (ht1 : t ≤ 1) (ht : ∀ c, candidate? lb ub v d s l δ = some c → t ≤ c.length) :
    (Status.followSign lb ub (l + t * δ) s).Admits lb ub (l + t * δ) := by
  by_cases heq : lb = ub
  · exact Status.admits_followSign_of_eq hlb hub heq hs _
  rw [Status.followSign_of_ne heq]
  cases s with
  | lower => exact ⟨multiplier_nonpos_of_lower hlb hub heq hs.1 ht0 ht1 ht, hs.2⟩
  | inactive =>
    rw [hfree rfl, mul_zero, add_zero]
    exact hs
  | upper => exact ⟨multiplier_nonneg_of_upper hlb hub heq hs.1 ht0 ht1 ht, hs.2⟩
  | fixed number foreign => exact hs.elim

end Within

section Limit

variable {α : Type} [Scalar α] {k : ℕ} {proposals : Vector (Option (Candidate α)) k} {e : Fin k}

theorem stepLimit_of_no_index (h : (stepLimit proposals).index = none) :
    (stepLimit proposals).length = 1 := by
  unfold stepLimit at h ⊢
  cases hbest : shortest? proposals with
  | none => rfl
  | some best =>
    obtain ⟨i, a⟩ := best
    simp only [hbest] at h ⊢
    split_ifs at h ⊢ with h1
    rfl

theorem kind_stepLimit_of_no_index (h : (stepLimit proposals).index = none) :
    (stepLimit proposals).kind = none := by
  unfold stepLimit at h ⊢
  cases hbest : shortest? proposals with
  | none => rfl
  | some best =>
    obtain ⟨i, a⟩ := best
    simp only [hbest] at h ⊢
    split_ifs at h ⊢ with h1
    rfl

theorem candidates_stepLimit (proposals : Vector (Option (Candidate α)) k) :
    (stepLimit proposals).candidates = proposals := by
  unfold stepLimit
  cases shortest? proposals with
  | none => rfl
  | some best =>
    dsimp only
    split_ifs <;> rfl

theorem invalid_stepLimit (proposals : Vector (Option (Candidate α)) k) :
    (stepLimit proposals).invalid = firstInvalid? proposals := by
  unfold stepLimit
  cases shortest? proposals with
  | none => rfl
  | some best =>
    dsimp only
    split_ifs <;> rfl

/-- Nothing is reported exactly when every proposal lies in `[0, 1]`. -/
theorem invalid_stepLimit_eq_none_iff :
    (stepLimit proposals).invalid = none ↔ ∀ e c, proposals.get e = some c → c.IsValid := by
  rw [invalid_stepLimit, firstInvalid?, List.find?_eq_none]
  constructor
  · intro h e c he
    have hnot := h e (List.mem_finRange e)
    simpa [he] using hnot
  · intro h e _
    cases he : proposals.get e with
    | none => simp
    | some c => simpa using h e c he

variable [Scalar.Ordered α]

theorem isFirstLeast_shortest? (proposals : Vector (Option (Candidate α)) k) :
    IsFirstLeast (fun c c' => Scalar.precedes c.length c'.length) proposals.get k
      (shortest? proposals) :=
  isFirstLeast_precedes Candidate.length proposals.get

theorem stepLimit_of_index (he : (stepLimit proposals).index = some e) :
    ∃ c, proposals.get e = some c ∧ (stepLimit proposals).length = c.length ∧
      (stepLimit proposals).kind = some c.kind := by
  have hspec := isFirstLeast_shortest? proposals
  unfold stepLimit at he ⊢
  cases hbest : shortest? proposals with
  | none => simp [hbest] at he
  | some best =>
    obtain ⟨i, a⟩ := best
    rw [hbest] at hspec
    simp only [hbest] at he ⊢
    split_ifs at he ⊢ with h1
    cases he
    exact ⟨a, hspec.2.1, rfl, rfl⟩

omit [Scalar.Ordered α] in
theorem length_stepLimit_le_one_of_index (he : (stepLimit proposals).index = some e) :
    (stepLimit proposals).length ≤ 1 := by
  unfold stepLimit at he ⊢
  cases hbest : shortest? proposals with
  | none => simp [hbest] at he
  | some best =>
    obtain ⟨i, a⟩ := best
    simp only [hbest] at he ⊢
    split_ifs at he ⊢ with h1
    exact h1

/-- Entries before the one that limits a step propose strictly more. -/
theorem length_stepLimit_lt {e' : Fin k} {c : Candidate α}
    (he : (stepLimit proposals).index = some e) (hlt : e' < e)
    (hc : proposals.get e' = some c) : (stepLimit proposals).length < c.length := by
  have hspec := isFirstLeast_shortest? proposals
  have hnumber := (Scalar.Ordered.isNumber_of_le (length_stepLimit_le_one_of_index he)).1
  unfold stepLimit at he hnumber ⊢
  cases hbest : shortest? proposals with
  | none => simp [hbest] at he
  | some best =>
    obtain ⟨i, a⟩ := best
    rw [hbest] at hspec
    simp only [hbest] at he hnumber ⊢
    split_ifs at he hnumber ⊢ with h1
    cases he
    have h := hspec.2.2.2 e' hlt c hc
    exact (of_decide_eq_true h).resolve_right fun hnot => hnot.1 hnumber

end Limit

section RealLimit

variable {k : ℕ} {proposals : Vector (Option (Candidate ℝ)) k} {e : Fin k}

theorem length_stepLimit_le (he : proposals.get e = some c) :
    (stepLimit proposals).length ≤ c.length := by
  have hspec := isFirstLeast_shortest? proposals
  unfold stepLimit
  cases hbest : shortest? proposals with
  | none =>
    rw [hbest] at hspec
    simp [hspec e e.isLt] at he
  | some best =>
    obtain ⟨i, a⟩ := best
    rw [hbest] at hspec
    have hle : a.length ≤ c.length := by
      have h := hspec.2.2.1 e e.isLt c he
      simpa only [precedes_real, decide_eq_false_iff_not, not_lt] using h
    dsimp only
    split_ifs with h1
    · exact hle
    · exact (not_le.mp h1).le.trans hle

theorem length_stepLimit_le_one (proposals : Vector (Option (Candidate ℝ)) k) :
    (stepLimit proposals).length ≤ 1 := by
  cases hindex : (stepLimit proposals).index with
  | none => exact (stepLimit_of_no_index hindex).le
  | some e => exact length_stepLimit_le_one_of_index hindex

theorem length_stepLimit_nonneg (h : (stepLimit proposals).invalid = none) :
    0 ≤ (stepLimit proposals).length := by
  cases hindex : (stepLimit proposals).index with
  | none =>
    rw [stepLimit_of_no_index hindex]
    exact zero_le_one
  | some e =>
    obtain ⟨c, he, hlength, -⟩ := stepLimit_of_index hindex
    rw [hlength]
    exact (invalid_stepLimit_eq_none_iff.mp h e c he).1

end RealLimit

end QuadraticProgram
