import Mathlib.Data.Fin.Tuple.Basic
import QuadraticProgram.Proofs.Binary64
import QuadraticProgram.Proofs.Run.Budget
import QuadraticProgram.Proofs.Trace

/-! # One entry at a time

Whatever the arithmetic does, as long as its comparisons are those of an order, an iteration changes
whether one entry is held, and the report names that entry and the change. The entry in the way is
an inequality, because equalities are held from the start and for good, and only equalities follow
their signs. So the sentences of a run, replayed on the first active set that it shows, give all
later ones up to the sides of equalities.
-/
namespace QuadraticProgram

namespace Status

section Side

variable {β : Type} [LE β] {lb ub : β} {a b c s : Status}

def Placed (lb ub : β) : Status → Prop
  | lower => True
  | inactive => ¬ Same lb ub
  | upper => True
  | fixed .. => False

theorem Placed.isSome_mark? (hs : s.Placed lb ub) : s.mark?.isSome := by
  cases s with
  | fixed number foreign => exact hs.elim
  | _ => rfl

theorem Placed.isActive (hs : s.Placed lb ub) (hsame : Same lb ub) : s.IsActive := by
  rintro rfl
  exact hs hsame

theorem placed_of_isSome_mark? (hs : s.mark?.isSome) (hfree : Same lb ub → s.IsActive) :
    s.Placed lb ub := by
  cases s with
  | inactive => exact fun hsame => hfree hsame rfl
  | fixed number foreign => cases hs
  | _ => trivial

/-- The statuses of an entry agree up to the side on which an equality is held. -/
def AgreesWith (lb ub : β) (a b : Status) : Prop := a = b ∨ Same lb ub ∧ a.IsActive ∧ b.IsActive

theorem AgreesWith.trans (hab : a.AgreesWith lb ub b) (hbc : b.AgreesWith lb ub c) :
    a.AgreesWith lb ub c := by
  rcases hab with rfl | ⟨hsame, ha, hb⟩
  · exact hbc
  rcases hbc with rfl | ⟨-, -, hc⟩
  · exact Or.inr ⟨hsame, ha, hb⟩
  · exact Or.inr ⟨hsame, ha, hc⟩

theorem AgreesWith.isActive_iff (h : a.AgreesWith lb ub b) : b.IsActive ↔ a.IsActive := by
  rcases h with rfl | ⟨-, ha, hb⟩
  · rfl
  · exact iff_of_true hb ha

theorem AgreesWith.eq_of_not_same (h : a.AgreesWith lb ub b) (hne : ¬ Same lb ub) : a = b :=
  h.resolve_right fun hside => hne hside.1

end Side

variable {α β : Type} [Scalar α] [Bound α β] {lb ub : β} {s : Status}

theorem followSign_of_not_same (hne : ¬ Same lb ub) (multiplier : α) (s : Status) :
    followSign lb ub multiplier s = s :=
  if_neg hne

theorem agreesWith_followSign (hs : s.Placed lb ub) (multiplier : α) :
    s.AgreesWith lb ub (followSign lb ub multiplier s) := by
  by_cases hsame : Same lb ub
  · have hactive := hs.isActive hsame
    refine Or.inr ⟨hsame, hactive, ?_⟩
    rw [followSign, if_pos hsame]
    split_ifs
    · exact Status.noConfusion
    · exact Status.noConfusion
    · exact hactive
  · exact Or.inl (followSign_of_not_same hsame multiplier s).symm

theorem Placed.followSign (hs : s.Placed lb ub) (multiplier : α) :
    (s.followSign lb ub multiplier).Placed lb ub := by
  rw [Status.followSign]
  split_ifs
  · trivial
  · trivial
  · exact hs
  · exact hs

theorem isSome_mark?_ofSign (multiplier : α) : (ofSign multiplier).mark?.isSome := by
  rw [ofSign]
  split_ifs <;> rfl

theorem isSome_mark?_seed (lb ub : β) (current multiplier : α) :
    (seed lb ub current multiplier).mark?.isSome := by
  have hside : (proposed lb ub current multiplier).mark?.isSome := by
    rw [proposed]
    split_ifs
    · rfl
    · rfl
    · exact isSome_mark?_ofSign multiplier
  rw [seed]
  split_ifs
  · exact hside
  · rfl

/-- An equality is finite on both sides, so it is seeded on one of them. -/
theorem placed_seed [Bound.Ordered α β] (hlb : ¬ Same lb Bound.posInf)
    (hub : ¬ Same ub Bound.negInf) (current multiplier : α) :
    (seed lb ub current multiplier).Placed lb ub := by
  refine placed_of_isSome_mark? (isSome_mark?_seed lb ub current multiplier) fun hsame => ?_
  obtain ⟨hlower, hupper⟩ := Bound.Ordered.isFinite_of_same hsame hlb hub
  have hfinite : ∀ side : Status, Bound.isFinite (side.boundOn lb ub) = true := by
    intro side
    cases side <;> assumption
  rw [seed, if_pos (hfinite _), proposed]
  split_ifs with hsign
  · exact Status.noConfusion
  · exact Status.noConfusion
  · exact fun hinactive => hsign ⟨hsame, hinactive⟩

/-- The entry in the way changes whether it is held: a free one is held at the bound that it
reached, and a held one is released. -/
inductive Flips : Status → Blocking → Status → Prop
  | upperBound : Flips inactive .upperBound upper
  | lowerBound : Flips inactive .lowerBound lower
  | signChange {s : Status} (hs : s.IsActive) : Flips s .signChange inactive

theorem Flips.isActive_iff {s t : Status} {kind : Blocking} (h : s.Flips kind t) :
    t.IsActive ↔ ¬ s.IsActive := by
  cases h with
  | upperBound => decide
  | lowerBound => decide
  | signChange hs => simp [hs]

theorem Flips.eq_afterBlocking {s t : Status} {kind : Blocking} (h : s.Flips kind t) :
    t = afterBlocking (some kind) := by
  cases h <;> rfl

end Status

/-- Only inequalities propose lengths, and the kind of a proposal goes with the status. -/
theorem flips_of_candidate? {α β : Type} [Scalar α] [Bound α β] {lb ub : β} {v d l δ : α}
    {s : Status} {c : Candidate α}
    (hs : s.Placed lb ub) (hc : candidate? lb ub v d s l δ = some c) :
    ¬ Same lb ub ∧ s.Flips c.kind (Status.afterBlocking (some c.kind)) := by
  cases s with
  | lower =>
    simp only [candidate?] at hc
    split_ifs at hc with h
    obtain rfl := Option.some.inj hc
    exact ⟨h.1, .signChange Status.noConfusion⟩
  | inactive =>
    simp only [candidate?] at hc
    split_ifs at hc
    · obtain rfl := Option.some.inj hc
      exact ⟨hs, .upperBound⟩
    · obtain rfl := Option.some.inj hc
      exact ⟨hs, .lowerBound⟩
  | upper =>
    simp only [candidate?] at hc
    split_ifs at hc with h
    obtain rfl := Option.some.inj hc
    exact ⟨h.1, .signChange Status.noConfusion⟩
  | fixed number foreign => exact hs.elim

variable {α β : Type} [Scalar α] [Bound α β] {n m : ℕ}
variable {unit : α} {S : Analysis n m} {P : Problem α β n m} {g : PrimalDual α n m}
variable {s : State α n m}

def Problem.LeavesRoom (P : Problem α β n m) : Prop :=
  ∀ e, ¬ Same (P.lower.get e) Bound.posInf ∧ ¬ Same (P.upper.get e) Bound.negInf

theorem Problem.leavesRoom_iff {P : Problem ℝ EReal n m} : P.LeavesRoom ↔ P.Proper :=
  forall_congr' fun _ => and_congr (same_ereal _ _).not (same_ereal _ _).not

/-- Equalities are held, and no entry is under a number of its own. -/
def State.IsPlaced (P : Problem α β n m) (s : State α n m) : Prop :=
  ∀ e, (s.active.status.get e).Placed (P.lower.get e) (P.upper.get e)

theorem State.isPlaced_start [Bound.Ordered α β] (hP : P.LeavesRoom) (g : PrimalDual α n m) :
    (State.start P g).IsPlaced P := fun e => by
  rw [State.start, ActiveSet.get_status_seed]
  exact Status.placed_seed (hP e).1 (hP e).2 _ _

namespace State.IsPlaced

variable [Scalar.Ordered α] (hs : s.IsPlaced P)
include hs

theorem flips_of_index {e : Fin (n + m)} (he : (attempt S P s).limit.index = some e) :
    ¬ P.IsEquality e ∧ ∃ kind, (attempt S P s).limit.kind = some kind ∧
      (s.active.status.get e).Flips kind (Status.afterBlocking (some kind)) := by
  obtain ⟨c, hc, -, hkind⟩ := stepLimit_of_index he
  rw [get_candidates] at hc
  obtain ⟨hne, hflips⟩ := flips_of_candidate? (hs e) hc
  exact ⟨hne, c.kind, hkind, hflips⟩

theorem placed_blocked (S : Analysis n m) (e : Fin (n + m)) :
    (if (attempt S P s).limit.index = some e then
      Status.afterBlocking (attempt S P s).limit.kind
      else s.active.status.get e).Placed (P.lower.get e) (P.upper.get e) := by
  split_ifs with he
  · obtain ⟨hne, kind, hkind, -⟩ := hs.flips_of_index he
    rw [hkind]
    refine Status.placed_of_isSome_mark? ?_ fun hsame => absurd hsame hne
    cases kind <;> rfl
  · exact hs e

/-- The entry in the way takes its new status, and the others keep theirs up to sides. -/
theorem agreesWith_advanced (S : Analysis n m) (e : Fin (n + m)) :
    (if (attempt S P s).limit.index = some e then
      Status.afterBlocking (attempt S P s).limit.kind
      else s.active.status.get e).AgreesWith (P.lower.get e) (P.upper.get e)
        ((attempt S P s).advanced.active.status.get e) := by
  rw [active_advanced, Problem.get_status_activeAfter]
  exact Status.agreesWith_followSign (hs.placed_blocked S e) _

theorem iterate (unit : α) (S : Analysis n m) : (iterate unit S P s).IsPlaced P := by
  refine iterate_cases (motive := IsPlaced P) (fun _ _ _ _ => hs) fun _ e => ?_
  rw [active_advanced, Problem.get_status_activeAfter]
  exact (hs.placed_blocked S e).followSign _

theorem change?_decision (S : Analysis n m) :
    ((attempt S P s).decision s.active.status).change? =
      (attempt S P s).limit.index.map fun e =>
        (e, Status.afterBlocking (attempt S P s).limit.kind) := by
  rw [Attempt.decision]
  cases he : (attempt S P s).limit.index with
  | none => rfl
  | some e =>
    obtain ⟨-, kind, hkind, hflips⟩ := hs.flips_of_index he
    dsimp only
    rw [hkind]
    revert hflips
    generalize s.active.status.get e = status
    rintro (_ | _ | hactive)
    · rfl
    · rfl
    · rw [if_pos hactive]
      rfl

theorem isActive_advanced_iff {e : Fin (n + m)} (he : (attempt S P s).limit.index ≠ some e) :
    ((attempt S P s).advanced.active.status.get e).IsActive ↔ (s.active.status.get e).IsActive := by
  have hagrees := hs.agreesWith_advanced S e
  rw [if_neg he] at hagrees
  exact hagrees.isActive_iff

theorem flips_advanced {e : Fin (n + m)} (he : (attempt S P s).limit.index = some e) :
    ∃ kind, (attempt S P s).limit.kind = some kind ∧
      (s.active.status.get e).Flips kind ((attempt S P s).advanced.active.status.get e) := by
  obtain ⟨hne, kind, hkind, hflips⟩ := hs.flips_of_index he
  have hagrees := hs.agreesWith_advanced S e
  rw [if_pos he, hkind] at hagrees
  exact ⟨kind, hkind, hagrees.eq_of_not_same hne ▸ hflips⟩

/-- A report names the one decision that tells what its iteration does. -/
theorem decision_eq_iff (S : Analysis n m) (d : Decision n m) :
    (attempt S P s).decision s.active.status = d ↔
      d.Tells s.active.status (attempt S P s).advanced.active.status := by
  rw [← Decision.change?_injective.eq_iff, hs.change?_decision S, Decision.Tells]
  cases he : (attempt S P s).limit.index with
  | none =>
    have hsame : ∀ e, ((attempt S P s).advanced.active.status.get e).IsActive ↔
        (s.active.status.get e).IsActive :=
      fun e => hs.isActive_advanced_iff (he ▸ (Option.some_ne_none e).symm)
    cases d.change? with
    | none => exact iff_of_true rfl hsame
    | some change =>
      refine iff_of_false (Option.some_ne_none _).symm fun h => ?_
      exact iff_not_self ((hsame change.1).symm.trans h.1)
  | some e =>
    obtain ⟨kind, hkind, hflips⟩ := hs.flips_advanced he
    rw [hkind, Option.map_some, ← hflips.eq_afterBlocking]
    cases d.change? with
    | none => exact iff_of_false (Option.some_ne_none _) fun h =>
        iff_not_self ((h e).symm.trans hflips.isActive_iff)
    | some change =>
      obtain ⟨e', status⟩ := change
      constructor
      · intro h
        obtain ⟨rfl, rfl⟩ := Prod.mk.inj (Option.some.inj h)
        exact ⟨hflips.isActive_iff, rfl⟩
      · rintro ⟨hflip, hstatus⟩
        have hentry : e = e' := by
          by_contra hne
          have hsame := hs.isActive_advanced_iff (he ▸ fun h => hne (Option.some.inj h))
          exact iff_not_self (hsame.symm.trans hflip)
        subst hentry
        rw [hstatus]

theorem decision_eq_fullStep_iff (S : Analysis n m) :
    (attempt S P s).decision s.active.status = .fullStep ↔ (attempt S P s).limit.index = none := by
  rw [← Decision.change?_injective.eq_iff, hs.change?_decision S]
  exact Option.map_eq_none_iff

theorem agreesWith_replay (S : Analysis n m) (e : Fin (n + m)) :
    ((((attempt S P s).decision s.active.status).replay s.active.status).get e).AgreesWith
      (P.lower.get e) (P.upper.get e) ((attempt S P s).advanced.active.status.get e) := by
  have hagrees := hs.agreesWith_advanced S e
  rw [Decision.get_replay, hs.change?_decision S]
  cases he : (attempt S P s).limit.index with
  | none => rwa [he, if_neg (Option.some_ne_none e).symm] at hagrees
  | some e' =>
    rw [he] at hagrees
    refine (congrArg (Status.AgreesWith _ _ · _) ?_).mp hagrees
    exact if_congr (by rw [Option.some.injEq, eq_comm]) rfl rfl

end State.IsPlaced

theorem Reached.isPlaced [Scalar.Ordered α] [Bound.Ordered α β] (hP : P.LeavesRoom)
    (hs : Reached unit S P g s) : s.IsPlaced P :=
  hs.of_preserved (State.isPlaced_start hP g) fun _ ht => ht.iterate unit S

/-- The entry in the way is the first one whose proposal is the length of the step. -/
theorem Attempt.head?_affected [Scalar.Ordered α] {a : Attempt α n m}
    {proposals : Vector (Option (Candidate α)) (n + m)} (hlimit : a.limit = stepLimit proposals) :
    a.affected.head? = a.limit.index := by
  rw [affected, hlimit, candidates_stepLimit]
  cases he : (stepLimit proposals).index with
  | none => rfl
  | some e =>
    obtain ⟨c, hc, hlength, -⟩ := stepLimit_of_index he
    have hnumber := (Scalar.Ordered.isNumber_of_le (length_stepLimit_le_one_of_index he)).1
    rw [Option.isSome_some, if_pos rfl, List.head?_filter, ← Fin.find?_eq_find?_finRange,
      Fin.find?_eq_some_iff]
    refine ⟨?_, fun e' hlt => ?_⟩
    · rw [hc, hlength]
      exact decide_eq_true (hlength ▸ ⟨hnumber, hnumber⟩)
    · cases hc' : proposals.get e' with
      | none => rfl
      | some c' =>
        have hless := length_stepLimit_lt he hlt hc'
        exact decide_eq_false fun hsame => (Scalar.Ordered.lt_iff.mp hless).2 hsame.1

section Replay

variable {v w : Vector Status (n + m)}

omit [Scalar α] in
theorem agreesWith_replay_replay {lb ub : Vector β (n + m)}
    (h : ∀ e, (v.get e).AgreesWith (lb.get e) (ub.get e) (w.get e)) (d : Decision n m)
    (e : Fin (n + m)) :
    ((d.replay v).get e).AgreesWith (lb.get e) (ub.get e) ((d.replay w).get e) := by
  rw [Decision.get_replay, Decision.get_replay]
  cases d.change? with
  | none => exact h e
  | some change =>
    dsimp only
    split_ifs
    · exact Or.inl rfl
    · exact h e

theorem reports_succ (unit : α) (S : Analysis n m) (P : Problem α β n m) (budget : ℕ)
    (s : State α n m) :
    reports unit S P (budget + 1) s = if s.done then [] else
      (attempt S P s).report s :: reports unit S P budget (iterate unit S P s) := by
  rw [reports, attempts]
  split_ifs <;> rfl

/-- A run goes on only after a step, so the decisions before a report have been carried out. -/
theorem State.IsPlaced.agreesWith_foldl_replay [Scalar.Ordered α] {budget j : ℕ}
    {r : IterationReport α n m} (hs : s.IsPlaced P)
    (hr : (reports unit S P budget s)[j]? = some r)
    (hv : ∀ e, (v.get e).AgreesWith (P.lower.get e) (P.upper.get e) (s.active.status.get e))
    (e : Fin (n + m)) :
    (((((reports unit S P budget s).take j).map IterationReport.decision).foldl
        (fun v d => d.replay v) v).get e).AgreesWith (P.lower.get e) (P.upper.get e)
      (r.status.get e) := by
  induction j generalizing budget s v with
  | zero =>
    cases budget with
    | zero => cases hr
    | succ budget =>
      rw [reports_succ] at hr
      split_ifs at hr
      · cases hr
      · obtain rfl := Option.some.inj hr
        exact hv e
  | succ j ih =>
    cases budget with
    | zero => cases hr
    | succ budget =>
      rw [reports_succ] at hr ⊢
      split_ifs at hr ⊢
      · cases hr
      rw [List.getElem?_cons_succ] at hr
      have hregular : ¬ (attempt S P s).IsFatal unit := by
        intro hfatal
        have hdone := done_iterate_iff_ends.mpr (Or.inl hfatal)
        cases budget with
        | zero => cases hr
        | succ budget =>
          rw [reports_succ, if_pos hdone] at hr
          cases hr
      rw [List.take_succ_cons, List.map_cons, List.foldl_cons]
      refine ih (hs.iterate unit S) hr fun e => ?_
      rw [iterate_of_not_isFatal hregular]
      exact (agreesWith_replay_replay hv _ e).trans (hs.agreesWith_replay S e)

end Replay

theorem State.IsPlaced.line_eq_iff [Scalar.Ordered α] (hs : s.IsPlaced P) (S : Analysis n m)
    (write : α → String) (writeAll : List α → String) (d : Decision n m) :
    (((attempt S P s).report s).lines write writeAll)[14]? = some d.text ↔
      d.Tells s.active.status (attempt S P s).advanced.active.status := by
  change some ((attempt S P s).decision s.active.status).text = some d.text ↔ _
  rw [Option.some.injEq, Decision.text_injective.eq_iff, hs.decision_eq_iff]

namespace Reached

variable [Scalar.Ordered α] [Bound.Ordered α β]

/-- An iteration that does not fail changes whether the entry in its way is held, at the side that
the kind names, and nothing else but the sides of equalities. Its report says so, and the decisions
of a run, replayed on the first active set that it shows, give all later ones up to those sides. -/
theorem flips_one_entry (hP : P.LeavesRoom) (write : α → String) (writeAll : List α → String) :
    (∀ s, Reached unit S P g s → ¬ (attempt S P s).IsFatal unit →
      let t := QuadraticProgram.iterate unit S P s
      let before := s.active.status
      let after := t.active.status
      let report := (attempt S P s).report s
      let line := (report.lines write writeAll)[14]?
      (t.index = none → ∀ e, (after.get e).IsActive ↔ (before.get e).IsActive) ∧
      (∀ e, t.index = some e →
        (∃ kind, t.kind = some kind ∧ (before.get e).Flips kind (after.get e)) ∧
        ∀ e' ≠ e, (after.get e').IsActive ↔ (before.get e').IsActive) ∧
      (∀ e, (before.get e).IsActive → (after.get e).IsActive → after.get e ≠ before.get e →
        P.IsEquality e) ∧
      (line = some "Full step" ↔ t.index = none) ∧
      (∀ e, (line = some ("Bound removed for " ++ entryName e) ↔
          (before.get e).IsActive ∧ after.get e = .inactive) ∧
        (line = some ("Upper bound added for " ++ entryName e) ↔
          before.get e = .inactive ∧ after.get e = .upper) ∧
        (line = some ("Lower bound added for " ++ entryName e) ↔
          before.get e = .inactive ∧ after.get e = .lower)) ∧
      report.affected.head? = t.index ∧
      (report.lines write writeAll)[12]? =
        some ("Affected bounds: " ++ Text.listing (report.affected.map Fin.val))) ∧
    ∀ budget j first r,
      let run := reports unit S P budget (State.start P g)
      run[0]? = some first → run[j]? = some r →
      ∀ (status : Vector Status (n + m)) (decisions : List (Decision n m)),
        ((first.lines write writeAll).drop 5).take 2 = activeSetLines status →
        ((run.take j).map fun r => (r.lines write writeAll)[14]?) = decisions.map (some ·.text) →
        ((r.lines write writeAll).drop 5).take 2 = activeSetLines r.status ∧
          ∀ e, ((decisions.foldl (fun v d => d.replay v) status).get e).AgreesWith
            (P.lower.get e) (P.upper.get e) (r.status.get e) := by
  refine ⟨fun s hreached hregular => ?_, fun budget j first r hfirst hr status decisions hstatus
    hdecisions => ?_⟩
  · have hs := hreached.isPlaced hP
    rw [iterate_of_not_isFatal hregular]
    have hsame : ∀ e, (attempt S P s).limit.index ≠ some e →
        (((attempt S P s).advanced.active.status.get e).IsActive ↔
          (s.active.status.get e).IsActive) := fun e he => hs.isActive_advanced_iff he
    refine ⟨fun hnone e => hsame e ?_,
      fun e he => ⟨hs.flips_advanced he, fun e' hne => hsame e' ?_⟩,
      fun e hbefore hafter hne => ?_, ?_, fun e => ⟨?_, ?_, ?_⟩, ?_, rfl⟩
    · exact fun he => Option.some_ne_none e (he.symm.trans hnone)
    · exact fun he' => hne (Option.some.inj (he'.symm.trans he))
    · by_contra hinequality
      by_cases he : (attempt S P s).limit.index = some e
      · obtain ⟨kind, -, hflips⟩ := hs.flips_advanced he
        exact hflips.isActive_iff.mp hafter hbefore
      · have hagrees := hs.agreesWith_advanced S e
        rw [if_neg he] at hagrees
        exact hne (hagrees.eq_of_not_same hinequality).symm
    · exact (hs.line_eq_iff S write writeAll .fullStep).trans
        ((hs.decision_eq_iff S .fullStep).symm.trans (hs.decision_eq_fullStep_iff S))
    · exact (hs.line_eq_iff S write writeAll (.removed e)).trans Decision.tells_removed_iff
    · exact (hs.line_eq_iff S write writeAll (.upperAdded e)).trans Decision.tells_upperAdded_iff
    · exact (hs.line_eq_iff S write writeAll (.lowerAdded e)).trans Decision.tells_lowerAdded_iff
    · exact Attempt.head?_affected rfl
  · have hs := State.isPlaced_start hP g
    have hmarks : status = (State.start P g).active.status := by
      refine eq_of_activeSetLines (fun e => (hs e).isSome_mark?) ?_
      rw [← hstatus]
      cases budget with
      | zero => cases hfirst
      | succ budget =>
        obtain rfl := Option.some.inj hfirst
        rfl
    have hreplayed : ((reports unit S P budget (State.start P g)).take j).map
        IterationReport.decision = decisions := by
      refine List.map_injective_iff.mpr ((Option.some_injective _).comp Decision.text_injective) ?_
      rw [List.map_map]
      exact hdecisions
    rw [← hreplayed, hmarks]
    exact ⟨rfl, hs.agreesWith_foldl_replay hr fun _ => Or.inl rfl⟩

/-- The order of real numbers will do, and so will that of doubles. From one above the bound the
first report names the bound that is added, and the second one a full step. -/
theorem flips_one_entry_above :
    let S := Problem.aboveOne.analyze .natural
    let s := State.start Problem.aboveOne .above
    let t := stateAfter 0 S Problem.aboveOne .above 1
    let report (s : State ℝ 1 0) := (attempt S Problem.aboveOne s).report s
    let line (s : State ℝ 1 0) := ((report s).lines (fun _ => "") fun _ => "")[14]?
    (Scalar.Ordered ℝ ∧ Bound.Ordered ℝ EReal) ∧
      (Scalar.Ordered Flushed ∧ Bound.Ordered Flushed Flushed) ∧ Problem.aboveOne.LeavesRoom ∧
      (Reached 0 S Problem.aboveOne .above s ∧ ¬ (attempt S Problem.aboveOne s).IsFatal 0 ∧
        s.active.status.get 0 = .inactive ∧ t.active.status.get 0 = .lower ∧
        line s = some "Lower bound added for x[0]" ∧ (report s).affected.head? = some 0) ∧
      (Reached 0 S Problem.aboveOne .above t ∧ ¬ (attempt S Problem.aboveOne t).IsFatal 0 ∧
        line t = some "Full step") ∧
      reports 0 S Problem.aboveOne 9 s = [report s, report t] ∧
      (((Decision.lowerAdded 0).replay s.active.status).get 0).AgreesWith
        (Problem.aboveOne.lower.get 0) (Problem.aboveOne.upper.get 0) (t.active.status.get 0) := by
  intro S s t report line
  have hroom := Problem.leavesRoom_iff.mpr Problem.proper_aboveOne
  have ht : Reached 0 S Problem.aboveOne .above t := reached_stateAfter 0 S _ _ 1
  have hregular := not_isFatal_above .natural
  have hregular' := not_isFatal_stateAfter_above .natural 1
  have hfree : s.active.status.get 0 = .inactive := get_status_aboveOne get_multiplier_above 0
  have hheld : t.active.status.get 0 = .lower := (stateAfter_one_above .natural).2.2.1
  have hindex : t.index = some 0 := (stateAfter_one_above .natural).1.2.1
  have hfull : (QuadraticProgram.iterate 0 S Problem.aboveOne t).index = none := by
    rw [iterate_of_not_isFatal hregular']
    exact index_attempt_above .natural
  have hreports : reports 0 S Problem.aboveOne 9 s = [report s, report t] :=
    congrArg (List.map _) (attempts_above .natural 7)
  have hfirst : (reports 0 S Problem.aboveOne 9 s)[0]? = some (report s) := by
    rw [hreports]
    rfl
  have hsecond : (reports 0 S Problem.aboveOne 9 s)[1]? = some (report t) := by
    rw [hreports]
    rfl
  obtain ⟨-, -, -, -, hline, haffected, -⟩ := (flips_one_entry hroom (fun _ => "") fun _ => "").1 s
    (.start : Reached 0 S Problem.aboveOne .above s) hregular
  have hadded : line s = some "Lower bound added for x[0]" := (hline 0).2.2.mpr ⟨hfree, hheld⟩
  obtain ⟨-, -, -, hline, -⟩ := (flips_one_entry hroom (fun _ => "") fun _ => "").1 t ht hregular'
  have hdecisions : ((reports 0 S Problem.aboveOne 9 s).take 1).map
      (fun r => (r.lines (fun _ => "") fun _ => "")[14]?) =
        [(.lowerAdded 0 : Decision 1 0)].map (some ·.text) := by
    rw [hreports]
    exact congrArg (fun line => [line]) hadded
  obtain ⟨-, hagrees⟩ := (flips_one_entry hroom (fun _ => "") fun _ => "").2 9 1 (report s)
    (report t) hfirst hsecond s.active.status [.lowerAdded 0] rfl hdecisions
  exact ⟨⟨inferInstance, inferInstance⟩, ⟨inferInstance, inferInstance⟩, hroom,
    ⟨.start, hregular, hfree, hheld, hadded, haffected.trans hindex⟩,
    ⟨ht, hregular', hline.mpr hfull⟩, hreports, hagrees 0⟩

end Reached

end QuadraticProgram
