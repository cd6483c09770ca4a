import QuadraticProgram.Proofs.MaximalStep
import QuadraticProgram.Proofs.Run.Descent
import QuadraticProgram.Proofs.Run.Flips

/-! # Finite sides

Only seeding asks whether a side is finite. Afterwards an entry comes to be held where its value
reaches a bound, and no real value reaches an infinite bound that leaves room. An equality changes
its side and not its bound. So held entries have finite bounds, as long as the bounds of the entry
leave room. Two bounds at one infinity do not: the value counts as past them already, and moving
away from them the entry is held there by a step of length zero.
-/
namespace QuadraticProgram

namespace Status

variable {lb ub : EReal} {s : Status}

theorem finiteSide_of_isFinite (hmark : s.mark?.isSome)
    (hfinite : Bound.isFinite (s.boundOn lb ub) = true) : s.FiniteSide lb ub := by
  cases s with
  | inactive => trivial
  | fixed number foreign => cases hmark
  | _ => exact hfinite

/-- Seeding needs no assumption on the bounds. -/
theorem finiteSide_seed (lb ub : EReal) (current multiplier : ℝ) :
    (seed lb ub current multiplier).FiniteSide lb ub := by
  have hmark := isSome_mark?_seed lb ub current multiplier
  rw [seed] at hmark ⊢
  split_ifs at hmark ⊢ with hfinite
  · exact finiteSide_of_isFinite hmark hfinite
  · trivial

theorem FiniteSide.followSign (hlb : lb ≠ ⊤) (hub : ub ≠ ⊥) (hs : s.FiniteSide lb ub)
    (multiplier : ℝ) : (s.followSign lb ub multiplier).FiniteSide lb ub := by
  by_cases heq : lb = ub
  · rw [Status.followSign, if_pos ((same_ereal lb ub).mpr heq)]
    split_ifs
    · exact (isFinite_ereal lb).mpr ⟨hlb, heq ▸ hub⟩
    · exact (isFinite_ereal ub).mpr ⟨heq ▸ hlb, hub⟩
    · exact hs
  · rwa [followSign_of_ne heq]

theorem FiniteSide.eq_inactive (hlb : Bound.isFinite lb = false) (hub : Bound.isFinite ub = false)
    (hs : s.FiniteSide lb ub) : s = inactive := by
  cases s with
  | lower => exact absurd (hlb.symm.trans hs) Bool.false_ne_true
  | inactive => rfl
  | upper => exact absurd (hub.symm.trans hs) Bool.false_ne_true
  | fixed number foreign => exact hs.elim

theorem eq_inactive_of_followSign {multiplier : ℝ}
    (h : followSign lb ub multiplier s = inactive) : s = inactive := by
  rw [followSign] at h
  split_ifs at h <;> exact h

end Status

section Proposal

variable {lb ub : EReal} {v d l δ : ℝ} {s : Status} {c : Candidate ℝ}

/-- What a value reaches is finite. -/
theorem Proposes.finiteSide_afterBlocking (h : Proposes lb ub v d l δ s c) :
    (Status.afterBlocking (some c.kind)).FiniteSide lb ub := by
  cases h with
  | upperBound hub => exact hub ▸ Status.isFinite_coe _
  | lowerBound hlb => exact hlb ▸ Status.isFinite_coe _
  | lower => trivial
  | upper => trivial

theorem isActive_afterBlocking_of_candidate? (hc : candidate? lb ub v d .inactive l δ = some c) :
    (Status.afterBlocking (some c.kind)).IsActive := by
  simp only [candidate?] at hc
  split_ifs at hc
  · obtain rfl := Option.some.inj hc
    exact Status.noConfusion
  · obtain rfl := Option.some.inj hc
    exact Status.noConfusion

/-- A bound at plus infinity is below no value, and still every value that falls is past it. -/
theorem candidate?_of_lower_eq_top (hd : d < 0) :
    candidate? (⊤ : EReal) ub v d .inactive l δ = some ⟨0, .lowerBound⟩ := by
  have hroom :
      Bound.toScalar (min ((⊤ : EReal) - Bound.ofScalar v) (Bound.ofScalar 0)) = (0 : ℝ) := by
    change (min ((⊤ : EReal) - (v : EReal)) ((0 : ℝ) : EReal)).toReal = 0
    rw [EReal.top_sub_coe, min_eq_right le_top, EReal.toReal_coe]
  simp only [candidate?]
  rw [if_neg fun hup => hup.1.not_gt hd, if_pos ⟨hd, le_top⟩, hroom, zero_div]

end Proposal

variable {n m : ℕ} {unit : ℝ} {S : Analysis n m} {P : Problem ℝ EReal n m}
variable {g : PrimalDual ℝ n m} {s : State ℝ n m} {e : Fin (n + m)}

namespace Problem

def NoRoom (P : Problem ℝ EReal n m) (e : Fin (n + m)) : Prop :=
  P.lower.get e = ⊤ ∨ P.upper.get e = ⊥

theorem NoRoom.isFinite_eq_false (h : P.NoRoom e) :
    Bound.isFinite (P.lower.get e) = false ∧ Bound.isFinite (P.upper.get e) = false := by
  have hle := P.lower_le_upper e
  have htop : Bound.isFinite (⊤ : EReal) = false := decide_eq_false fun hfinite => hfinite.1 rfl
  have hbot : Bound.isFinite (⊥ : EReal) = false := decide_eq_false fun hfinite => hfinite.2 rfl
  rcases h with h | h
  · rw [h, top_le_iff] at hle
    rw [h, hle]
    exact ⟨htop, htop⟩
  · rw [h, le_bot_iff] at hle
    rw [h, hle]
    exact ⟨hbot, hbot⟩

end Problem

namespace State

/-- Entries whose bounds leave room are only held at finite ones, and free entries have no
multiplier. -/
structure FinitelyHeld (P : Problem ℝ EReal n m) (s : State ℝ n m) : Prop where
  side : ∀ e, ¬ P.NoRoom e → (s.active.status.get e).FiniteSide (P.lower.get e) (P.upper.get e)
  free : ∀ e, s.active.status.get e = .inactive → s.active.multiplier.get e = 0

theorem finiteSide_start (P : Problem ℝ EReal n m) (g : PrimalDual ℝ n m) (e : Fin (n + m)) :
    ((start P g).active.status.get e).FiniteSide (P.lower.get e) (P.upper.get e) := by
  rw [get_status_start]
  exact Status.finiteSide_seed _ _ _ _

theorem get_status_start_of_noRoom (g : PrimalDual ℝ n m) (he : P.NoRoom e) :
    (start P g).active.status.get e = .inactive :=
  (finiteSide_start P g e).eq_inactive he.isFinite_eq_false.1 he.isFinite_eq_false.2

theorem finitelyHeld_start (P : Problem ℝ EReal n m) (g : PrimalDual ℝ n m) :
    (start P g).FinitelyHeld P where
  side e _ := finiteSide_start P g e
  free e he := by rw [get_multiplier_start, if_pos he]

/-- Whatever bound the entry in the way reaches is finite, if its bounds leave room. -/
theorem finiteSide_of_index (hroom : ¬ P.NoRoom e) (he : (attempt S P s).limit.index = some e) :
    (Status.afterBlocking (attempt S P s).limit.kind).FiniteSide (P.lower.get e)
      (P.upper.get e) := by
  obtain ⟨hlb, hub⟩ := not_or.mp hroom
  obtain ⟨c, hproposes, -, hkind⟩ := proposes_of_index hlb hub he
  rw [hkind]
  exact hproposes.finiteSide_afterBlocking

/-- A variable that reaches a bound is put onto a real number. -/
theorem coe_point_advanced_of_index {i : Fin n} (hroom : ¬ P.NoRoom (i.castAdd m))
    (hi : (attempt S P s).limit.index = some (i.castAdd m))
    (hactive : (Status.afterBlocking (attempt S P s).limit.kind).IsActive) :
    (((attempt S P s).advanced.point.get i : ℝ) : EReal) =
      (Status.afterBlocking (attempt S P s).limit.kind).boundOn (P.lower.get (i.castAdd m))
        (P.upper.get (i.castAdd m)) := by
  rw [← (finiteSide_of_index hroom hi).coe_heldAt hactive, point_advanced, Problem.pointAfter,
    get_ofFn, if_pos hi]
  revert hactive
  cases (attempt S P s).limit.kind with
  | none => exact fun hactive => absurd rfl hactive
  | some kind =>
    cases kind with
    | signChange => exact fun hactive => absurd rfl hactive
    | _ => exact fun _ => rfl

namespace FinitelyHeld

variable (hs : s.FinitelyHeld P)
include hs

theorem coe_value_add_rightHandSide (hroom : ¬ P.NoRoom e)
    (he : (s.active.status.get e).IsActive) :
    ((s.value.get e + (P.rightHandSide s.value s.active).get e : ℝ) : EReal) =
      (s.active.status.get e).boundOn (P.lower.get e) (P.upper.get e) := by
  rw [Problem.get_rightHandSide_of_isActive _ _ _ _ he, ← (hs.side e hroom).coe_heldAt he]
  congr 1
  ring

/-- A free entry is held after a step exactly when it was in the way, infinite bounds or not. -/
theorem isActive_advanced_iff (hfree : s.active.status.get e = .inactive) :
    ((attempt S P s).advanced.active.status.get e).IsActive ↔
      (attempt S P s).limit.index = some e := by
  rw [active_advanced, Problem.get_status_activeAfter, Problem.get_multiplier_activeAfter]
  by_cases hindex : (attempt S P s).limit.index = some e
  · obtain ⟨c, hc, -, hkind⟩ := stepLimit_of_index hindex
    have hkind : (attempt S P s).limit.kind = some c.kind := hkind
    rw [get_candidates, hfree] at hc
    rw [if_pos hindex, if_pos hindex, Status.followSign_zero, hkind]
    exact iff_of_true (isActive_afterBlocking_of_candidate? hc) hindex
  -- without a multiplier there is no sign to follow, even if the bounds coincide
  · rw [if_neg hindex, if_neg hindex, hs.free e hfree, hfree,
      get_multiplier_direction_of_inactive S P s hfree, mul_zero, add_zero, Status.followSign_zero]
    exact iff_of_false (not_not.mpr rfl) hindex

theorem advanced (S : Analysis n m) : (attempt S P s).advanced.FinitelyHeld P where
  side e hroom := by
    obtain ⟨hlb, hub⟩ := not_or.mp hroom
    rw [active_advanced, Problem.get_status_activeAfter]
    -- an equality with room is finite on both sides, so its sign does no harm
    refine Status.FiniteSide.followSign hlb hub ?_ _
    split_ifs with he
    · exact finiteSide_of_index hroom he
    · exact hs.side e hroom
  free e hfree := by
    rw [active_advanced, Problem.get_status_activeAfter] at hfree
    rw [active_advanced, Problem.get_multiplier_activeAfter]
    have hfree := Status.eq_inactive_of_followSign hfree
    split_ifs at hfree ⊢ with he
    · rfl
    · rw [hs.free e hfree, get_multiplier_direction_of_inactive S P s hfree, mul_zero, add_zero]

theorem iterate (unit : ℝ) (S : Analysis n m) : (iterate unit S P s).FinitelyHeld P :=
  iterate_cases (motive := FinitelyHeld P) (fun _ _ _ _ => ⟨hs.side, hs.free⟩)
    fun _ => hs.advanced S

end FinitelyHeld

end State

theorem Reached.finitelyHeld (hs : Reached unit S P g s) : s.FinitelyHeld P :=
  hs.of_preserved (State.finitelyHeld_start P g) fun _ ht => ht.iterate unit S

section AtInfinity

open Problem

/-- The program `½ x² + x` with both bounds of the variable at plus infinity. -/
noncomputable def Problem.atInfinity : Problem ℝ EReal 1 0 :=
  { aboveOne with
    linear := Vector.ofFn fun _ => 1
    lower := Vector.ofFn fun _ => ⊤
    upper := Vector.ofFn fun _ => ⊤
    ordered := fun e => decide_eq_false (not_lt.mpr (by rw [get_ofFn])) }

theorem Problem.lower_atInfinity (e : Fin (1 + 0)) : atInfinity.lower.get e = ⊤ := get_ofFn _ e

theorem get_status_atInfinity (g : PrimalDual ℝ 1 0) (e : Fin (1 + 0)) :
    (State.start atInfinity g).active.status.get e = .inactive :=
  State.get_status_start_of_noRoom g (Or.inl (lower_atInfinity e))

theorem not_isSingular_atInfinity (rule : ColumnOrder) (g : PrimalDual ℝ 1 0) :
    ¬ (attempt (atInfinity.analyze rule) atInfinity (State.start atInfinity g)).IsSingular 0 := by
  have hH : atInfinity.hessian.toMatrix.PosDef := posDef_hessian_aboveOne
  refine not_isSingular_attempt_of_linearIndependent hH (covers_analyze atInfinity rule) ?_
  exact (linearIndepOn_empty ℝ atInfinity.normal).mono fun e he =>
    absurd (get_status_atInfinity g e) he

/-- The step aims at the minimiser without bounds. -/
theorem direction_atInfinity (rule : ColumnOrder) :
    (attempt (atInfinity.analyze rule) atInfinity
      (State.start atInfinity .zero)).direction.value.get 0 = -1 := by
  have hS := covers_analyze atInfinity rule
  have hz := solves_attempt le_rfl hS (not_isSingular_atInfinity rule .zero)
  have hvalue : (State.start atInfinity .zero).value.get (Fin.castAdd 0 0) = 0 :=
    (get_valuesAt_castAdd atInfinity _ 0).trans (get_ofFn _ 0)
  have hlinear : atInfinity.linear.get 0 = 1 := get_ofFn _ 0
  have hH : atInfinity.hessian.toMatrix = 1 := hessian_aboveOne
  have hstep := direction_of_free hH hS hz 0 (get_status_atInfinity .zero _)
  rw [hvalue, hlinear, zero_add (1 : ℝ)] at hstep
  exact hstep

/-- The value falls, so the bound is in the way at once. -/
theorem limit_atInfinity (rule : ColumnOrder) :
    let a := attempt (atInfinity.analyze rule) atInfinity (State.start atInfinity .zero)
    a.limit.index = some 0 ∧ a.limit.length = 0 ∧ a.limit.kind = some .lowerBound ∧
      a.limit.invalid = none := by
  intro a
  have hcandidate : (candidates atInfinity.lower atInfinity.upper
      (State.start atInfinity .zero).value (State.start atInfinity .zero).active
      a.direction).get 0 = some ⟨0, .lowerBound⟩ := by
    rw [get_candidates, get_status_atInfinity, lower_atInfinity, direction_atInfinity]
    exact candidate?_of_lower_eq_top neg_one_lt_zero
  exact stepLimit_of_unique (fun e => Subsingleton.elim (α := Fin 1) e 0) hcandidate
    ⟨le_rfl, zero_le_one⟩

theorem not_isFatal_atInfinity (rule : ColumnOrder) :
    ¬ (attempt (atInfinity.analyze rule) atInfinity (State.start atInfinity .zero)).IsFatal 0 :=
  fun hfatal => hfatal.elim (not_isSingular_atInfinity rule .zero) fun hinvalid =>
    hinvalid (limit_atInfinity rule).2.2.2

end AtInfinity

namespace Reached

/-- An entry whose bounds leave room is held only at a finite bound, on the side of its status. The
right-hand side of a held entry is the distance from that bound, and a variable that reaches a bound
is put onto that real number. An entry whose bounds are at one infinity starts free and comes to be
held exactly when it is in the way of a step. If that entry is a variable, it is put onto its
infinite bound. No real number is infinite, and `Bound.toScalar` of an infinity is zero, so after
such a step the exact reading goes on from `x = 0` where the run in doubles has an infinite `x`. -/
theorem held_at_finite_bound (hs : Reached unit S P g s) :
    (∀ e, P.lower.get e ≠ ⊤ → P.upper.get e ≠ ⊥ →
      (s.active.status.get e).FiniteSide (P.lower.get e) (P.upper.get e) ∧
      ((s.active.status.get e).IsActive →
        ((s.value.get e + (P.rightHandSide s.value s.active).get e : ℝ) : EReal) =
          (s.active.status.get e).boundOn (P.lower.get e) (P.upper.get e))) ∧
    (¬ (attempt S P s).IsFatal unit →
      let t := QuadraticProgram.iterate unit S P s
      (∀ i : Fin n, P.lower.get (i.castAdd m) ≠ ⊤ → P.upper.get (i.castAdd m) ≠ ⊥ →
        t.index = some (i.castAdd m) →
        (t.kind = some .upperBound →
          ((t.point.get i : ℝ) : EReal) = P.upper.get (i.castAdd m)) ∧
        (t.kind = some .lowerBound →
          ((t.point.get i : ℝ) : EReal) = P.lower.get (i.castAdd m))) ∧
      ∀ e, P.lower.get e = ⊤ ∨ P.upper.get e = ⊥ → s.active.status.get e = .inactive →
        ((t.active.status.get e).IsActive ↔ t.index = some e)) ∧
    ∀ e, P.lower.get e = ⊤ ∨ P.upper.get e = ⊥ →
      (State.start P g).active.status.get e = .inactive := by
  have hheld := hs.finitelyHeld
  refine ⟨fun e hlb hub => ?_, fun hregular => ?_, fun e => State.get_status_start_of_noRoom g⟩
  · have hroom : ¬ P.NoRoom e := not_or.mpr ⟨hlb, hub⟩
    exact ⟨hheld.side e hroom, hheld.coe_value_add_rightHandSide hroom⟩
  · rw [iterate_of_not_isFatal hregular]
    refine ⟨fun i hlb hub hi => ?_, fun e _ => hheld.isActive_advanced_iff⟩
    have hroom : ¬ P.NoRoom (i.castAdd m) := not_or.mpr ⟨hlb, hub⟩
    have hpoint := State.coe_point_advanced_of_index hroom hi
    refine ⟨fun hkind => ?_, fun hkind => ?_⟩
    · have hkind : (attempt S P s).limit.kind = some .upperBound := hkind
      rw [hkind] at hpoint
      exact hpoint Status.noConfusion
    · have hkind : (attempt S P s).limit.kind = some .lowerBound := hkind
      rw [hkind] at hpoint
      exact hpoint Status.noConfusion

/-- A variable is put onto its bound, and one whose bounds are at infinity comes to be held. -/
theorem held_at_finite_bound_above :
    let S := Problem.aboveOne.analyze .natural
    let s := State.start Problem.aboveOne .above
    let t := QuadraticProgram.iterate 0 S Problem.aboveOne s
    let S' := Problem.atInfinity.analyze .natural
    let s' := State.start Problem.atInfinity .zero
    let t' := QuadraticProgram.iterate 0 S' Problem.atInfinity s'
    Reached 0 S Problem.aboveOne .above s ∧ ¬ (attempt S Problem.aboveOne s).IsFatal 0 ∧
      (t.index = some (Fin.castAdd 0 0) ∧ t.kind = some .lowerBound ∧ t.point.get 0 = 1) ∧
      Reached 0 S' Problem.atInfinity .zero s' ∧ ¬ (attempt S' Problem.atInfinity s').IsFatal 0 ∧
      s'.active.status.get 0 = .inactive ∧ (t'.active.status.get 0).IsActive := by
  intro S s t S' s' t'
  have hregular := not_isFatal_above .natural
  have hregular' := not_isFatal_atInfinity .natural
  have hlimit : t.index = some (Fin.castAdd 0 0) ∧ t.kind = some .lowerBound := by
    have hnext : t = (attempt S Problem.aboveOne s).advanced := iterate_of_not_isFatal hregular
    rw [hnext]
    obtain ⟨hindex, -, hkind⟩ := limit_above .natural
    exact ⟨hindex, hkind⟩
  have hindex' : t'.index = some 0 := by
    have hnext : t' = (attempt S' Problem.atInfinity s').advanced :=
      iterate_of_not_isFatal hregular'
    rw [hnext]
    exact (limit_atInfinity .natural).1
  obtain ⟨-, hstep, -⟩ := held_at_finite_bound (.start : Reached 0 S Problem.aboveOne .above s)
  have hpoint := ((hstep hregular).1 0 (Problem.proper_aboveOne 0).1 (Problem.proper_aboveOne 0).2
    hlimit.1).2 hlimit.2
  rw [(Problem.bounds_aboveOne (Fin.castAdd 0 0)).1] at hpoint
  obtain ⟨-, hstep', hstart'⟩ :=
    held_at_finite_bound (.start : Reached 0 S' Problem.atInfinity .zero s')
  have hfree : s'.active.status.get 0 = .inactive :=
    hstart' 0 (Or.inl (Problem.lower_atInfinity 0))
  have hheld' : (t'.active.status.get 0).IsActive :=
    ((hstep' hregular').2 0 (Or.inl (Problem.lower_atInfinity 0)) hfree).mpr hindex'
  exact ⟨.start, hregular, ⟨hlimit.1, hlimit.2, EReal.coe_eq_one.mp hpoint⟩, .start, hregular',
    hfree, hheld'⟩

/-- A variable with both bounds at plus infinity is held at its lower one after one iteration. -/
theorem held_at_infinity :
    let S := Problem.atInfinity.analyze .minimumDegree
    let s := QuadraticProgram.iterate 0 S Problem.atInfinity (State.start Problem.atInfinity .zero)
    Reached 0 S Problem.atInfinity .zero s ∧ s.outcome = .unfinished ∧
      s.active.status.get 0 = .lower ∧ Problem.atInfinity.lower.get 0 = ⊤ := by
  intro S s
  obtain ⟨hindex, -, hkind, -⟩ := limit_atInfinity .minimumDegree
  have hnext : s = (attempt S Problem.atInfinity (State.start Problem.atInfinity .zero)).advanced :=
    iterate_of_not_isFatal (not_isFatal_atInfinity .minimumDegree)
  refine ⟨.iterate .start, ?_, ?_, Problem.lower_atInfinity 0⟩
  · rw [hnext, outcome_advanced, hindex]
    rfl
  · rw [hnext, active_advanced, Problem.get_status_activeAfter, Problem.get_multiplier_activeAfter,
      if_pos hindex, if_pos hindex, hkind, Status.followSign_zero]
    rfl

end Reached

end QuadraticProgram
