import QuadraticProgram.Proofs.Rescaling
import QuadraticProgram.Proofs.StepLength

/-! # Mirror images

Changing the sign of every value and of every multiplier turns lower bounds into upper ones. The
branches for the two sides are written apart, and here they are shown to be images of each other:
on which side an entry is seeded, what it is held at, what it proposes, which proposal limits the
step, and where the step puts the point.
-/
namespace QuadraticProgram

def Blocking.mirror : Blocking → Blocking
  | upperBound => lowerBound
  | lowerBound => upperBound
  | signChange => signChange

theorem Blocking.mirror_mirror (kind : Blocking) : kind.mirror.mirror = kind := by
  cases kind <;> rfl

namespace Status

def mirror : Status → Status
  | lower => upper
  | inactive => inactive
  | upper => lower
  | fixed number foreign => fixed (-number) (by rwa [Int.natAbs_neg])

/-- The number that stands for a status changes its sign. -/
theorem code_mirror (s : Status) : s.mirror.code = -s.code := by
  cases s <;> simp [mirror, code]

theorem mirror_mirror (s : Status) : s.mirror.mirror = s := by
  cases s <;> simp [mirror]

theorem isActive_mirror_iff {s : Status} : s.mirror.IsActive ↔ s.IsActive := by
  cases s <;> simp [mirror]

theorem isActive_iff_of_mirror {held : Prop} {s t : Status}
    (hheld : held → s.IsActive ∧ t.IsActive) (hmirror : ¬ held → t = s.mirror) :
    t.IsActive ↔ s.IsActive := by
  by_cases h : held
  · obtain ⟨hs, ht⟩ := hheld h
    exact iff_of_true ht hs
  · rw [hmirror h, isActive_mirror_iff]

theorem afterBlocking_mirror (kind : Option Blocking) :
    afterBlocking (kind.map Blocking.mirror) = (afterBlocking kind).mirror := by
  rcases kind with _ | kind
  · rfl
  · cases kind <;> rfl

theorem heldAt_mirror (lb ub : EReal) (s : Status) :
    (s.mirror.heldAt (-ub) (-lb) : ℝ) = -s.heldAt lb ub := by
  cases s with
  | lower => exact EReal.toReal_neg_eq
  | upper => exact EReal.toReal_neg_eq
  | _ => exact neg_zero.symm

theorem Admits.heldAt_of_eq {lb ub : EReal} {multiplier : ℝ} {s : Status} (heq : lb = ub)
    (h : s.Admits lb ub multiplier) : s.heldAt lb ub = lb.toReal := by
  cases s with
  | lower => rfl
  | inactive => exact absurd heq h.2
  | upper => exact congrArg EReal.toReal heq.symm
  | fixed number foreign => exact h.elim

theorem ofSign_neg (multiplier : ℝ) : ofSign (-multiplier) = (ofSign multiplier).mirror := by
  rcases lt_trichotomy multiplier 0 with h | rfl | h
  · rw [ofSign_of_neg h, ofSign_of_pos (neg_pos.mpr h)]
    rfl
  · rw [neg_zero, ofSign_zero]
    rfl
  · rw [ofSign_of_pos h, ofSign_of_neg (neg_neg_of_pos h)]
    rfl

theorem isFinite_neg (b : EReal) : Bound.isFinite (-b) = Bound.isFinite b := by
  rw [Bool.eq_iff_iff, isFinite_ereal, isFinite_ereal, Ne, Ne, EReal.neg_eq_top_iff,
    EReal.neg_eq_bot_iff, and_comm]

/-- Seeding an inequality does not prefer a side. An equality without a multiplier may be seeded on
the lower side in both images. -/
theorem seed_mirror {lb ub : EReal} (hne : lb ≠ ub) (current multiplier : ℝ) :
    seed (-ub) (-lb) (-current) (-multiplier) = (seed lb ub current multiplier).mirror := by
  have hne' : -ub ≠ -lb := fun h => hne (neg_inj.mp h).symm
  rcases lt_trichotomy multiplier 0 with h | rfl | h
  · unfold seed
    rw [proposed_of_ne hne, proposed_of_ne hne', ofSign_neg, ofSign_of_neg h, apply_ite mirror]
    change (if Bound.isFinite (-lb) = true then upper else inactive) = _
    rw [isFinite_neg]
    rfl
  · rw [neg_zero, seed_zero_of_ne hne, seed_zero_of_ne hne']
    rfl
  · unfold seed
    rw [proposed_of_ne hne, proposed_of_ne hne', ofSign_neg, ofSign_of_pos h, apply_ite mirror]
    change (if Bound.isFinite (-ub) = true then lower else inactive) = _
    rw [isFinite_neg]
    rfl

end Status

section Proposals

variable {lb ub : EReal} {v d l δ : ℝ} {s : Status} {c : Candidate ℝ}

def Candidate.mirror (c : Candidate ℝ) : Candidate ℝ := { c with kind := c.kind.mirror }

theorem Candidate.mirror_mirror (c : Candidate ℝ) : c.mirror.mirror = c := by
  cases c
  simp [mirror, Blocking.mirror_mirror]

theorem Proposes.mirror (h : Proposes lb ub v d l δ s c) :
    Proposes (-ub) (-lb) (-v) (-d) (-l) (-δ) s.mirror c.mirror := by
  have hne : lb ≠ ub → -ub ≠ -lb := fun hne h => hne (neg_inj.mp h).symm
  cases h with
  | @upperBound u hub hd hle =>
    have hlength : min (-u - -v) 0 / -d = max (u - v) 0 / d := by
      rw [← neg_zero, show -u - -v = -(u - v) by ring, min_neg_neg, neg_zero, neg_div_neg_eq]
    have himage : Proposes (-ub) (-lb) (-v) (-d) (-l) (-δ) .inactive
        ⟨min (-u - -v) 0 / -d, .lowerBound⟩ :=
      .lowerBound (by rw [hub, EReal.coe_neg]) (neg_neg_of_pos hd) (by linarith)
    rwa [hlength] at himage
  | @lowerBound b hlb hd hle =>
    have hlength : max (-b - -v) 0 / -d = min (b - v) 0 / d := by
      rw [← neg_zero, show -b - -v = -(b - v) by ring, max_neg_neg, neg_zero, neg_div_neg_eq]
    have himage : Proposes (-ub) (-lb) (-v) (-d) (-l) (-δ) .inactive
        ⟨max (-b - -v) 0 / -d, .upperBound⟩ :=
      .upperBound (by rw [hlb, EReal.coe_neg]) (neg_pos.mpr hd) (by linarith)
    rwa [hlength] at himage
  | lower hbounds hδ hle =>
    have himage := Proposes.upper (v := -v) (d := -d) (l := -l) (hne hbounds)
      (neg_neg_of_pos hδ) (by linarith)
    rwa [neg_div_neg_eq] at himage
  | upper hbounds hδ hle =>
    have himage := Proposes.lower (v := -v) (d := -d) (l := -l) (hne hbounds)
      (neg_pos.mpr hδ) (by linarith)
    rwa [neg_div_neg_eq] at himage

theorem candidate?_mirror (hlb : lb ≠ ⊤) (hub : ub ≠ ⊥) :
    candidate? (-ub) (-lb) (-v) (-d) s.mirror (-l) (-δ) =
      (candidate? lb ub v d s l δ).map Candidate.mirror := by
  have hlb' : -ub ≠ ⊤ := fun h => hub (EReal.neg_eq_top_iff.mp h)
  have hub' : -lb ≠ ⊥ := fun h => hlb (EReal.neg_eq_bot_iff.mp h)
  refine Option.ext fun c => ?_
  rw [candidate?_eq_some_iff hlb' hub', Option.map_eq_some_iff]
  constructor
  -- the image of an image is the entry itself, so this direction is the other one for the image
  · intro h
    have himage := h.mirror
    simp only [neg_neg, Status.mirror_mirror] at himage
    exact ⟨c.mirror, (candidate?_eq_some_iff hlb hub).mpr himage, c.mirror_mirror⟩
  · rintro ⟨c, hc, rfl⟩
    exact ((candidate?_eq_some_iff hlb hub).mp hc).mirror

/-- Held equalities are never in the way. -/
theorem candidate?_of_eq (heq : lb = ub) (hs : s.IsActive) : candidate? lb ub v d s l δ = none := by
  cases s with
  | lower => simp [candidate?, heq]
  | inactive => exact absurd rfl hs
  | upper => simp [candidate?, heq]
  | fixed number foreign => rfl

variable {k : ℕ} {proposals images : Vector (Option (Candidate ℝ)) k}

structure StepLimit.Mirrors {k : ℕ} (limit image : StepLimit ℝ k) : Prop where
  length : image.length = limit.length
  index : image.index = limit.index
  kind : image.kind = limit.kind.map Blocking.mirror

theorem stepLimit_mirror
    (himages : ∀ e, images.get e = (proposals.get e).map Candidate.mirror) :
    (stepLimit proposals).Mirrors (stepLimit images) := by
  have hshortest : shortest? images =
      (shortest? proposals).map (Prod.map id Candidate.mirror) := by
    have hget : images.get = fun e => (proposals.get e).map Candidate.mirror := funext himages
    rw [shortest?, hget]
    exact firstLeast?_map Candidate.mirror fun _ _ => rfl
  unfold stepLimit
  rw [hshortest]
  rcases shortest? proposals with _ | ⟨e, c⟩
  · exact ⟨rfl, rfl, rfl⟩
  · simp only [Option.map_some, Prod.map, Candidate.mirror]
    split_ifs
    · exact ⟨rfl, rfl, rfl⟩
    · exact ⟨rfl, rfl, rfl⟩

end Proposals

namespace Problem

variable {n m : ℕ}

noncomputable def mirror (P : Problem ℝ EReal n m) : Problem ℝ EReal n m where
  hessian := P.hessian
  linear := -P.linear
  constraints := P.constraints
  lower := P.upper.map Neg.neg
  upper := P.lower.map Neg.neg
  ordered e := by
    rw [get_map, get_map]
    refine decide_eq_false fun h => ?_
    exact of_decide_eq_false (P.ordered e) (EReal.neg_lt_neg_iff.mp h)

variable (P : Problem ℝ EReal n m)

@[simp] theorem get_lower_mirror (e : Fin (n + m)) :
    P.mirror.lower.get e = -P.upper.get e := get_map _ _ e

@[simp] theorem get_upper_mirror (e : Fin (n + m)) :
    P.mirror.upper.get e = -P.lower.get e := get_map _ _ e

theorem analyze_mirror (rule : ColumnOrder) : P.mirror.analyze rule = P.analyze rule := rfl

theorem isEquality_mirror_iff {e : Fin (n + m)} : P.mirror.IsEquality e ↔ P.IsEquality e := by
  rw [IsEquality, IsEquality, same_ereal, same_ereal, get_lower_mirror, get_upper_mirror,
    neg_inj]
  exact eq_comm

theorem rescales_mirror : P.Rescales (-1) (-1) P.mirror where
  hessian := rfl
  linear := get_neg_eq_smul P.linear
  constraints := rfl

theorem valuesAt_mirror (x : Vector ℝ n) : P.mirror.valuesAt (-x) = -P.valuesAt x := by
  apply vector_ext
  intro e
  rw [P.rescales_mirror.valuesAt (get_neg_eq_smul x), get_neg, neg_one_mul]

theorem objective_mirror (x : Vector ℝ n) : P.mirror.objective (-x) = P.objective x := by
  rw [P.rescales_mirror.objective (get_neg_eq_smul x), neg_mul_neg, one_mul, one_mul]

theorem pointAfter_mirror {limit image : StepLimit ℝ (n + m)} (hlimit : limit.Mirrors image)
    (x d : Vector ℝ n) :
    P.mirror.pointAfter (-x) (-d) image = -P.pointAfter x d limit := by
  have hmove : ∀ i, (-x).get i + limit.length * (-d).get i =
      -(x.get i + limit.length * d.get i) := by
    intro i
    rw [get_neg, get_neg]
    ring
  apply vector_ext
  intro i
  rw [get_neg]
  simp only [pointAfter, get_ofFn, hlimit.length, hlimit.index, hlimit.kind, hmove]
  split_ifs
  · rcases limit.kind with _ | kind
    · rfl
    · cases kind with
      | upperBound =>
        rw [get_upper_mirror, get_lower_mirror]
        exact EReal.toReal_neg_eq
      | lowerBound =>
        rw [get_upper_mirror, get_lower_mirror]
        exact EReal.toReal_neg_eq
      | signChange => rfl
  · rfl

end Problem

end QuadraticProgram
