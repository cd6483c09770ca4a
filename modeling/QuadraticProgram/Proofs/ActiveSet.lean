import QuadraticProgram.ActiveSet
import QuadraticProgram.Exact

/-! # Statuses that fit their multipliers

What every state of a run keeps of an entry: a held entry has a multiplier on its side and a finite
bound there, a free entry has none and is no equality, and nothing is held away from its bounds.
Seeding establishes it for bounds that leave room, and equalities keep it as they follow the sign
of their multipliers.
-/
namespace QuadraticProgram.Status

/-- The status fits the bounds and the multiplier of its entry. -/
def Admits (lb ub : EReal) (multiplier : ℝ) : Status → Prop
  | lower => multiplier ≤ 0 ∧ lb ≠ ⊥
  | inactive => multiplier = 0 ∧ lb ≠ ub
  | upper => 0 ≤ multiplier ∧ ub ≠ ⊤
  | fixed .. => False

def FiniteSide (lb ub : EReal) : Status → Prop
  | lower => Bound.isFinite lb = true
  | inactive => True
  | upper => Bound.isFinite ub = true
  | fixed .. => False

variable {lb ub : EReal} {multiplier : ℝ} {s : Status}

theorem isFinite_ereal (b : EReal) : Bound.isFinite b = true ↔ b ≠ ⊤ ∧ b ≠ ⊥ := decide_eq_true_iff

theorem isFinite_coe (b : ℝ) : Bound.isFinite (b : EReal) = true :=
  (isFinite_ereal _).mpr ⟨EReal.coe_ne_top b, EReal.coe_ne_bot b⟩

theorem FiniteSide.coe_heldAt (h : s.FiniteSide lb ub) (hs : s.IsActive) :
    ((s.heldAt lb ub : ℝ) : EReal) = s.boundOn lb ub := by
  cases s with
  | lower =>
    obtain ⟨htop, hbot⟩ := (isFinite_ereal lb).mp h
    exact EReal.coe_toReal htop hbot
  | inactive => exact absurd rfl hs
  | upper =>
    obtain ⟨htop, hbot⟩ := (isFinite_ereal ub).mp h
    exact EReal.coe_toReal htop hbot
  | fixed number foreign => exact h.elim

theorem Admits.finiteSide (hlb : lb ≠ ⊤) (hub : ub ≠ ⊥) (h : s.Admits lb ub multiplier) :
    s.FiniteSide lb ub := by
  cases s with
  | lower => exact (isFinite_ereal lb).mpr ⟨hlb, h.2⟩
  | inactive => trivial
  | upper => exact (isFinite_ereal ub).mpr ⟨h.2, hub⟩
  | fixed number foreign => exact h.elim

theorem Admits.multiplier_eq_zero (h : s.Admits lb ub multiplier) (hs : s = inactive) :
    multiplier = 0 := by
  subst hs
  exact h.1

theorem Admits.isActive (h : s.Admits lb ub multiplier) (heq : lb = ub) : s.IsActive := by
  rintro rfl
  exact h.2 heq

theorem Admits.eq_lower_or_inactive_or_upper (h : s.Admits lb ub multiplier) :
    s = lower ∨ s = inactive ∨ s = upper := by
  cases s with
  | lower => exact Or.inl rfl
  | inactive => exact Or.inr (Or.inl rfl)
  | upper => exact Or.inr (Or.inr rfl)
  | fixed number foreign => exact h.elim

theorem Admits.coe_heldAt (hlb : lb ≠ ⊤) (hub : ub ≠ ⊥) (h : s.Admits lb ub multiplier)
    (hs : s.IsActive) : ((s.heldAt lb ub : ℝ) : EReal) = s.boundOn lb ub :=
  (h.finiteSide hlb hub).coe_heldAt hs

theorem ofSign_of_neg (h : multiplier < 0) : ofSign multiplier = lower := if_pos h

theorem ofSign_of_pos (h : 0 < multiplier) : ofSign multiplier = upper := by
  rw [ofSign, if_neg (not_lt.mpr h.le), if_pos h]

theorem ofSign_zero : ofSign (0 : ℝ) = inactive := by
  rw [ofSign, if_neg (lt_irrefl _), if_neg (lt_irrefl _)]

/-- An equality is held on the side of the multiplier, or on either side when there is none. -/
theorem proposed_of_eq (heq : lb = ub) (current multiplier : ℝ) :
    multiplier ≤ 0 ∧ proposed lb ub current multiplier = lower ∨
      0 ≤ multiplier ∧ proposed lb ub current multiplier = upper := by
  have hsame : Same lb ub := (same_ereal lb ub).mpr heq
  rcases lt_trichotomy multiplier 0 with h | rfl | h
  · exact Or.inl ⟨h.le, by simp [proposed, ofSign_of_neg h]⟩
  · by_cases hle : Bound.ofScalar current ≤ ub
    · exact Or.inl ⟨le_rfl, by rw [proposed, if_pos ⟨hsame, ofSign_zero⟩, if_pos hle]⟩
    · exact Or.inr ⟨le_rfl, by rw [proposed, if_pos ⟨hsame, ofSign_zero⟩, if_neg hle]⟩
  · exact Or.inr ⟨h.le, by simp [proposed, ofSign_of_pos h]⟩

theorem proposed_of_ne (hne : lb ≠ ub) (current multiplier : ℝ) :
    proposed lb ub current multiplier = ofSign multiplier :=
  if_neg fun h => hne ((same_ereal lb ub).mp h.1)

theorem seed_of_finite {current : ℝ} {side : Status}
    (hside : proposed lb ub current multiplier = side)
    (hfinite : side.boundOn lb ub ≠ ⊤ ∧ side.boundOn lb ub ≠ ⊥) :
    seed lb ub current multiplier = side := by
  rw [seed, hside]
  exact if_pos ((isFinite_ereal _).mpr hfinite)

theorem seed_of_infinite {current : ℝ} {side : Status}
    (hside : proposed lb ub current multiplier = side)
    (hinfinite : ¬ (side.boundOn lb ub ≠ ⊤ ∧ side.boundOn lb ub ≠ ⊥)) :
    seed lb ub current multiplier = inactive := by
  rw [seed, hside]
  exact if_neg fun h => hinfinite ((isFinite_ereal _).mp h)

theorem seed_zero_of_ne (hne : lb ≠ ub) (current : ℝ) :
    seed lb ub current (0 : ℝ) = inactive := by
  have hside : proposed lb ub current (0 : ℝ) = inactive :=
    (proposed_of_ne hne current 0).trans ofSign_zero
  by_cases hfinite : lb ≠ ⊤ ∧ lb ≠ ⊥
  · exact seed_of_finite hside hfinite
  · exact seed_of_infinite hside hfinite

/-- An equality on its bound without a multiplier is held on the lower side. -/
theorem seed_zero_of_eq (hlb : lb ≠ ⊤) (hub : ub ≠ ⊥) (heq : lb = ub) {current : ℝ}
    (hcurrent : (current : EReal) = ub) : seed lb ub current (0 : ℝ) = lower := by
  have hside : proposed lb ub current (0 : ℝ) = lower := by
    rw [proposed, if_pos ⟨(same_ereal lb ub).mpr heq, ofSign_zero⟩]
    exact if_pos hcurrent.le
  exact seed_of_finite hside ⟨hlb, heq ▸ hub⟩

/-- A multiplier that is not zero determines the status that it fits. -/
theorem Admits.seed_eq (hlb : lb ≠ ⊤) (hub : ub ≠ ⊥) (hs : s.Admits lb ub multiplier)
    (hne : multiplier ≠ 0) (current : ℝ) : seed lb ub current multiplier = s := by
  rcases lt_or_gt_of_ne hne with h | h
  · have hside : proposed lb ub current multiplier = lower := by simp [proposed, ofSign_of_neg h]
    cases s with
    | lower => exact seed_of_finite hside ⟨hlb, hs.2⟩
    | inactive => exact absurd hs.1 hne
    | upper => exact absurd hs.1 h.not_ge
    | fixed number foreign => exact hs.elim
  · have hside : proposed lb ub current multiplier = upper := by simp [proposed, ofSign_of_pos h]
    cases s with
    | lower => exact absurd hs.1 h.not_ge
    | inactive => exact absurd hs.1 hne
    | upper => exact seed_of_finite hside ⟨hs.2, hub⟩
    | fixed number foreign => exact hs.elim

theorem admits_seed (hlb : lb ≠ ⊤) (hub : ub ≠ ⊥) (current multiplier : ℝ) :
    (seed lb ub current multiplier).Admits lb ub
      (if seed lb ub current multiplier = inactive then 0 else multiplier) := by
  by_cases heq : lb = ub
  · have hlb' : lb ≠ ⊥ := heq ▸ hub
    have hub' : ub ≠ ⊤ := heq ▸ hlb
    rcases proposed_of_eq heq current multiplier with ⟨hsign, hside⟩ | ⟨hsign, hside⟩
    · rw [seed_of_finite hside ⟨hlb, hlb'⟩]
      exact ⟨hsign, hlb'⟩
    · rw [seed_of_finite hside ⟨hub', hub⟩]
      exact ⟨hsign, hub'⟩
  · have hfree : inactive.Admits lb ub (if inactive = inactive then 0 else multiplier) :=
      ⟨if_pos rfl, heq⟩
    have hside := proposed_of_ne heq current multiplier
    rcases lt_trichotomy multiplier 0 with h | rfl | h
    · rw [ofSign_of_neg h] at hside
      by_cases hlb' : lb = ⊥
      · rw [seed_of_infinite hside fun hfinite => hfinite.2 hlb']
        exact hfree
      · rw [seed_of_finite hside ⟨hlb, hlb'⟩]
        exact ⟨h.le, hlb'⟩
    · rw [seed_zero_of_ne heq]
      exact hfree
    · rw [ofSign_of_pos h] at hside
      by_cases hub' : ub = ⊤
      · rw [seed_of_infinite hside fun hfinite => hfinite.1 hub']
        exact hfree
      · rw [seed_of_finite hside ⟨hub', hub⟩]
        exact ⟨h.le, hub'⟩

theorem followSign_of_ne (hne : lb ≠ ub) (multiplier : ℝ) (s : Status) :
    followSign lb ub multiplier s = s :=
  if_neg fun h => hne ((same_ereal lb ub).mp h)

theorem followSign_zero (lb ub : EReal) (s : Status) : followSign lb ub (0 : ℝ) s = s := by
  simp [followSign]

/-- A status that fits its multiplier is already on its side. -/
theorem Admits.followSign_eq (hs : s.Admits lb ub multiplier) :
    followSign lb ub multiplier s = s := by
  by_cases heq : lb = ub
  · rw [followSign, if_pos ((same_ereal lb ub).mpr heq)]
    cases s with
    | lower => rw [if_neg hs.1.not_gt, ite_self]
    | inactive => exact absurd heq hs.2
    | upper => rw [if_neg hs.1.not_gt, ite_self]
    | fixed number foreign => exact hs.elim
  · exact followSign_of_ne heq multiplier s

/-- A held equality takes the side of whatever multiplier it is given. -/
theorem admits_followSign_of_eq (hlb : lb ≠ ⊤) (hub : ub ≠ ⊥) (heq : lb = ub)
    (hs : s.Admits lb ub multiplier) (new : ℝ) : (followSign lb ub new s).Admits lb ub new := by
  have hsame : Same lb ub := (same_ereal lb ub).mpr heq
  have hlb' : lb ≠ ⊥ := heq ▸ hub
  have hub' : ub ≠ ⊤ := heq ▸ hlb
  rcases lt_trichotomy new 0 with h | rfl | h
  · rw [followSign, if_pos hsame, if_pos h]
    exact ⟨h.le, hlb'⟩
  · rw [followSign_zero]
    cases s with
    | lower => exact ⟨le_rfl, hlb'⟩
    | inactive => exact absurd heq hs.2
    | upper => exact ⟨le_rfl, hub'⟩
    | fixed number foreign => exact hs.elim
  · rw [followSign, if_pos hsame, if_neg (not_lt.mpr h.le), if_pos h]
    exact ⟨h.le, hub'⟩

theorem boundOn_of_eq (heq : lb = ub) (s : Status) : s.boundOn lb ub = lb := by
  subst heq
  cases s <;> rfl

/-- Following a sign does not move the bound that an entry is held at. -/
theorem boundOn_followSign (lb ub : EReal) (multiplier : ℝ) (s : Status) :
    (followSign lb ub multiplier s).boundOn lb ub = s.boundOn lb ub := by
  by_cases heq : lb = ub
  · rw [boundOn_of_eq heq, boundOn_of_eq heq]
  · rw [followSign_of_ne heq]

theorem Admits.isActive_of_followSign (hs : s.Admits lb ub multiplier) {new : ℝ}
    (h : (followSign lb ub new s).IsActive) : s.IsActive := by
  rintro rfl
  rw [followSign_of_ne hs.2] at h
  exact h rfl

end QuadraticProgram.Status
