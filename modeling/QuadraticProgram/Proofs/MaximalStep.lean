import Mathlib.Data.Fin.Tuple.Basic
import QuadraticProgram.Proofs.StepLength

/-! # The longest step is maximal

An entry makes a proposal exactly when the full step brings it to a bound that its value moves to,
or to the zero that its multiplier moves to, and beyond the length that it proposes it is past it.
Only a multiplier that starts on the wrong side and moves further away makes a proposal that is not
valid. So without one the step goes exactly as far as all entries allow, and the first of the
entries that allow no more is the one in its way.
-/
namespace QuadraticProgram

variable {lb ub : EReal} {v d l δ t : ℝ} {s : Status} {c : Candidate ℝ} {kind : Blocking}

/-- The multiplier of a held inequality is on the wrong side of zero and moves further away. -/
def Status.Strays (lb ub : EReal) (l δ : ℝ) : Status → Prop
  | .lower => lb ≠ ub ∧ 0 < l ∧ 0 < δ
  | .upper => lb ≠ ub ∧ l < 0 ∧ δ < 0
  | .inactive => False
  | .fixed .. => False

/-- At length `t` a free value is on or past a bound that it moves to, or the multiplier of a held
inequality is on or past the zero that it moves to. -/
inductive Reaches (lb ub : EReal) (v d l δ t : ℝ) : Status → Blocking → Prop
  | upperBound (hd : 0 < d) (hle : ub ≤ ((v + t * d : ℝ) : EReal)) :
      Reaches lb ub v d l δ t .inactive .upperBound
  | lowerBound (hd : d < 0) (hle : ((v + t * d : ℝ) : EReal) ≤ lb) :
      Reaches lb ub v d l δ t .inactive .lowerBound
  | lower (hne : lb ≠ ub) (hδ : 0 < δ) (hle : 0 ≤ l + t * δ) :
      Reaches lb ub v d l δ t .lower .signChange
  | upper (hne : lb ≠ ub) (hδ : δ < 0) (hle : l + t * δ ≤ 0) :
      Reaches lb ub v d l δ t .upper .signChange

def IsBeyond (lb ub : EReal) (v l : ℝ) : Status → Blocking → Prop
  | .inactive, .upperBound => ub < v
  | .inactive, .lowerBound => v < lb
  | .lower, .signChange => 0 < l
  | .upper, .signChange => l < 0
  | _, _ => False

namespace Proposes

theorem isBeyond (h : Proposes lb ub v d l δ s c) (ht : c.length < t) :
    IsBeyond lb ub (v + t * d) (l + t * δ) s c.kind := by
  cases h with
  | @upperBound u hub hd =>
    have hroom := (div_lt_iff₀ hd).mp ht
    have hbeyond : u < v + t * d := by linarith [le_max_left (u - v) 0]
    exact hub ▸ EReal.coe_lt_coe_iff.mpr hbeyond
  | @lowerBound b hlb hd =>
    have hroom := (div_lt_iff_of_neg hd).mp ht
    have hbeyond : v + t * d < b := by linarith [min_le_left (b - v) 0]
    exact hlb ▸ EReal.coe_lt_coe_iff.mpr hbeyond
  | lower hne hδ =>
    have hroom := (div_lt_iff₀ hδ).mp ht
    change 0 < l + t * δ
    linarith
  | upper hne hδ =>
    have hroom := (div_lt_iff_of_neg hδ).mp ht
    change l + t * δ < 0
    linarith

/-- The full step reaches what a proposal is made for. -/
theorem reaches (h : Proposes lb ub v d l δ s c) : Reaches lb ub v d l δ 1 s c.kind := by
  cases h with
  | upperBound hub hd hle =>
    rw [← one_mul d] at hle
    exact .upperBound hd (hub ▸ EReal.coe_le_coe_iff.mpr hle)
  | lowerBound hlb hd hle =>
    rw [← one_mul d] at hle
    exact .lowerBound hd (hlb ▸ EReal.coe_le_coe_iff.mpr hle)
  | lower hne hδ hle => exact .lower hne hδ (by rwa [one_mul])
  | upper hne hδ hle => exact .upper hne hδ (by rwa [one_mul])

theorem not_isValid_iff (h : Proposes lb ub v d l δ s c) :
    ¬ c.IsValid ↔ s.Strays lb ub l δ := by
  have hvalid : c.IsValid ↔ 0 ≤ c.length := and_iff_left h.length_le_one
  rw [hvalid]
  cases h with
  | upperBound hub hd =>
    exact iff_of_false (not_not.mpr (div_nonneg (le_max_right _ _) hd.le)) id
  | lowerBound hlb hd =>
    exact iff_of_false (not_not.mpr (div_nonneg_of_nonpos (min_le_right _ _) hd.le)) id
  | lower hne hδ =>
    rw [le_div_iff₀ hδ, zero_mul, neg_nonneg, not_le]
    exact ⟨fun hl => ⟨hne, hl, hδ⟩, fun hstrays => hstrays.2.1⟩
  | upper hne hδ =>
    rw [le_div_iff_of_neg hδ, zero_mul, neg_nonpos, not_le]
    exact ⟨fun hl => ⟨hne, hl, hδ⟩, fun hstrays => hstrays.2.1⟩

end Proposes

/-- What is reached on the way is reached by the full step, so there is a proposal for it. -/
theorem Reaches.exists_proposes (hlb : lb ≠ ⊤) (hub : ub ≠ ⊥) (ht : t ≤ 1)
    (h : Reaches lb ub v d l δ t s kind) : ∃ c, Proposes lb ub v d l δ s c := by
  cases h with
  | upperBound hd hle =>
    obtain ⟨u, rfl⟩ := exists_coe_of_le hub hle
    have hmove : u ≤ v + t * d := EReal.coe_le_coe_iff.mp hle
    exact ⟨_, .upperBound rfl hd (by linarith [mul_le_of_le_one_left hd.le ht])⟩
  | lowerBound hd hle =>
    obtain ⟨b, rfl⟩ := exists_coe_of_ge hlb hle
    have hmove : v + t * d ≤ b := EReal.coe_le_coe_iff.mp hle
    exact ⟨_, .lowerBound rfl hd (by linarith [le_mul_of_le_one_left hd.le ht])⟩
  | lower hne hδ hle =>
    exact ⟨_, .lower hne hδ (by linarith [mul_le_of_le_one_left hδ.le ht])⟩
  | upper hne hδ hle =>
    exact ⟨_, .upper hne hδ (by linarith [le_mul_of_le_one_left hδ.le ht])⟩

theorem Status.Strays.exists_proposes (h : s.Strays lb ub l δ) :
    ∃ c, Proposes lb ub v d l δ s c := by
  cases s with
  | lower => exact ⟨_, .lower h.1 h.2.2 (by linarith [h.2.1, h.2.2])⟩
  | upper => exact ⟨_, .upper h.1 h.2.2 (by linarith [h.2.1, h.2.2])⟩
  | inactive => exact h.elim
  | fixed number foreign => exact h.elim

section Candidates

variable {k : ℕ} {lb ub : Vector EReal k} {value : Vector ℝ k} {s : ActiveSet ℝ k}
variable {d : Direction ℝ k} {e : Fin k} (hlb : lb.get e ≠ ⊤) (hub : ub.get e ≠ ⊥)
include hlb hub

theorem exists_invalid_iff_strays :
    (∃ c, (candidates lb ub value s d).get e = some c ∧ ¬ c.IsValid) ↔
      (s.status.get e).Strays (lb.get e) (ub.get e) (s.multiplier.get e) (d.multiplier.get e) := by
  constructor
  · rintro ⟨c, hc, hinvalid⟩
    exact ((get_candidates_eq_some_iff hlb hub).mp hc).not_isValid_iff.mp hinvalid
  · intro hstrays
    obtain ⟨c, hc⟩ := hstrays.exists_proposes
    exact ⟨c, (get_candidates_eq_some_iff hlb hub).mpr hc, hc.not_isValid_iff.mpr hstrays⟩

/-- An entry proposes nothing exactly when it reaches nothing on the whole way. -/
theorem get_candidates_eq_none_iff :
    (candidates lb ub value s d).get e = none ↔ ∀ t kind, 0 ≤ t → t ≤ 1 →
      ¬ Reaches (lb.get e) (ub.get e) (value.get e) (d.value.get e) (s.multiplier.get e)
        (d.multiplier.get e) t (s.status.get e) kind := by
  constructor
  · intro hnone t kind _ ht1 hreaches
    obtain ⟨c, hc⟩ := hreaches.exists_proposes hlb hub ht1
    exact Option.some_ne_none c (((get_candidates_eq_some_iff hlb hub).mpr hc).symm.trans hnone)
  · intro hnot
    refine Option.eq_none_iff_forall_ne_some.mpr fun c hc => ?_
    have hproposes := (get_candidates_eq_some_iff hlb hub).mp hc
    exact hnot 1 c.kind zero_le_one le_rfl hproposes.reaches

end Candidates

section Limit

variable {k : ℕ} {proposals : Vector (Option (Candidate ℝ)) k} {e : Fin k}

/-- What is reported is the first proposal outside `[0, 1]`. -/
theorem invalid_stepLimit_eq_some_iff :
    (stepLimit proposals).invalid = some e ↔
      (∃ c, proposals.get e = some c ∧ ¬ c.IsValid) ∧
        ∀ e' < e, ¬ ∃ c, proposals.get e' = some c ∧ ¬ c.IsValid := by
  rw [invalid_stepLimit, firstInvalid?, ← Fin.find?_eq_find?_finRange, Fin.find?_eq_some_iff]
  refine and_congr ?_ (forall₂_congr fun e' _ => ?_)
  · cases proposals.get e with
    | none => simp
    | some c =>
      rw [decide_eq_true_iff]
      constructor
      · exact fun h => ⟨c, rfl, h⟩
      · rintro ⟨_, hc, h⟩
        exact Option.some.inj hc ▸ h
  · cases proposals.get e' with
    | none => simp
    | some c => simp

/-- A step is limited as soon as anything is proposed that is not longer than the full one. -/
theorem index_stepLimit_eq_none_iff (hle : ∀ e c, proposals.get e = some c → c.length ≤ 1) :
    (stepLimit proposals).index = none ↔ ∀ e, proposals.get e = none := by
  have hspec := isFirstLeast_shortest? proposals
  unfold stepLimit
  cases hbest : shortest? proposals with
  | none =>
    rw [hbest] at hspec
    exact iff_of_true rfl fun e => hspec e e.isLt
  | some best =>
    obtain ⟨i, a⟩ := best
    rw [hbest] at hspec
    dsimp only
    rw [if_pos (hle i a hspec.2.1)]
    refine iff_of_false (Option.some_ne_none i) fun hnone => ?_
    exact Option.some_ne_none a (hspec.2.1.symm.trans (hnone i))

/-- An entry without others limits the step if it makes a valid proposal. -/
theorem stepLimit_of_unique (hunique : ∀ e', e' = e) {c : Candidate ℝ}
    (hc : proposals.get e = some c) (hvalid : c.IsValid) :
    (stepLimit proposals).index = some e ∧ (stepLimit proposals).length = c.length ∧
      (stepLimit proposals).kind = some c.kind ∧ (stepLimit proposals).invalid = none := by
  have honly : ∀ e' c', proposals.get e' = some c' → c' = c := by
    intro e' c' hc'
    rw [hunique e'] at hc'
    exact Option.some.inj (hc'.symm.trans hc)
  have hinvalid : (stepLimit proposals).invalid = none :=
    invalid_stepLimit_eq_none_iff.mpr fun e' c' hc' => honly e' c' hc' ▸ hvalid
  have hlimited : (stepLimit proposals).index ≠ none := by
    rw [ne_eq, index_stepLimit_eq_none_iff fun e' c' hc' => honly e' c' hc' ▸ hvalid.2]
    exact fun hnone => Option.some_ne_none c (hc.symm.trans (hnone e))
  obtain ⟨e', he'⟩ := Option.ne_none_iff_exists'.mp hlimited
  obtain ⟨c', hc', hlength, hkind⟩ := stepLimit_of_index he'
  obtain rfl := honly e' c' hc'
  exact ⟨he'.trans (congrArg some (hunique e')), hlength, hkind, hinvalid⟩

end Limit

/-- The entries of the step limit are numbered variables first. What is reported is the first held
inequality whose multiplier strays. Without one the length is in `[0, 1]`, and up to it no free
value crosses a bound and no multiplier of a held inequality leaves its side. The entry in the way
is the first one with the shortest proposal, which is the length, and any longer step takes it
beyond. There is none exactly when nothing is reached on the whole way, and then the step is full.
-/
theorem stepLimit_maximal {n m : ℕ} {lb ub : Vector EReal (n + m)}
    (hbounds : ∀ e, lb.get e ≠ ⊤ ∧ ub.get e ≠ ⊥) (value : Vector ℝ (n + m))
    (s : ActiveSet ℝ (n + m)) (d : Direction ℝ (n + m)) :
    let proposals := candidates lb ub value s d
    let limit := stepLimit proposals
    let strays e := (s.status.get e).Strays (lb.get e) (ub.get e) (s.multiplier.get e)
      (d.multiplier.get e)
    let valueAt e t := value.get e + t * d.value.get e
    let multiplierAt e t := s.multiplier.get e + t * d.multiplier.get e
    ((limit.invalid = none ↔ ∀ e, ¬ strays e) ∧
      ∀ e, limit.invalid = some e ↔ strays e ∧ ∀ e' < e, ¬ strays e') ∧
    (limit.invalid = none →
      (0 ≤ limit.length ∧ limit.length ≤ 1 ∧ ∀ t, 0 ≤ t → t ≤ limit.length → ∀ e,
        (s.status.get e = .inactive →
          min (lb.get e) (value.get e : EReal) ≤ (valueAt e t : EReal) ∧
            (valueAt e t : EReal) ≤ max (ub.get e) (value.get e : EReal)) ∧
        (s.status.get e = .lower → lb.get e ≠ ub.get e → s.multiplier.get e ≤ 0 →
          multiplierAt e t ≤ 0) ∧
        (s.status.get e = .upper → lb.get e ≠ ub.get e → 0 ≤ s.multiplier.get e →
          0 ≤ multiplierAt e t)) ∧
      (∀ e, limit.index = some e → ∃ c, proposals.get e = some c ∧ c.length = limit.length ∧
        limit.kind = some c.kind ∧
        (∀ e' c', proposals.get e' = some c' →
          limit.length ≤ c'.length ∧ (e' < e → limit.length < c'.length)) ∧
        ∀ t > limit.length, IsBeyond (lb.get e) (ub.get e) (valueAt e t) (multiplierAt e t)
          (s.status.get e) c.kind) ∧
      (limit.index = none ↔ ∀ e t kind, 0 ≤ t → t ≤ 1 →
        ¬ Reaches (lb.get e) (ub.get e) (value.get e) (d.value.get e) (s.multiplier.get e)
          (d.multiplier.get e) t (s.status.get e) kind) ∧
      (limit.index = none → limit.length = 1 ∧ limit.kind = none)) := by
  intro proposals limit strays valueAt multiplierAt
  have hproposes : ∀ e c, proposals.get e = some c ↔ Proposes (lb.get e) (ub.get e) (value.get e)
      (d.value.get e) (s.multiplier.get e) (d.multiplier.get e) (s.status.get e) c :=
    fun e _ => get_candidates_eq_some_iff (hbounds e).1 (hbounds e).2
  have hstrays : ∀ e, (∃ c, proposals.get e = some c ∧ ¬ c.IsValid) ↔ strays e :=
    fun e => exists_invalid_iff_strays (hbounds e).1 (hbounds e).2
  refine ⟨⟨?_, fun e => ?_⟩, fun hinvalid => ⟨?_, fun e he => ?_, ?_, fun hfull => ?_⟩⟩
  · refine invalid_stepLimit_eq_none_iff.trans (forall_congr' fun e => ?_)
    rw [← hstrays, not_exists]
    exact forall_congr' fun c => by rw [not_and, not_not]
  · simp only [← hstrays]
    exact invalid_stepLimit_eq_some_iff
  · refine ⟨length_stepLimit_nonneg hinvalid, length_stepLimit_le_one _, fun t ht0 ht e => ?_⟩
    have ht1 : t ≤ 1 := ht.trans (length_stepLimit_le_one _)
    have hshort : ∀ c, candidate? (lb.get e) (ub.get e) (value.get e) (d.value.get e)
        (s.status.get e) (s.multiplier.get e) (d.multiplier.get e) = some c → t ≤ c.length :=
      fun c hc => ht.trans (length_stepLimit_le ((get_candidates lb ub value s d e).trans hc))
    refine ⟨fun hstatus => ?_, fun hstatus hne hl => ?_, fun hstatus hne hl => ?_⟩
    · rw [hstatus] at hshort
      exact between_of_inactive (hbounds e).1 (hbounds e).2 ht0 ht1 hshort
    · rw [hstatus] at hshort
      exact multiplier_nonpos_of_lower (hbounds e).1 (hbounds e).2 hne hl ht0 ht1 hshort
    · rw [hstatus] at hshort
      exact multiplier_nonneg_of_upper (hbounds e).1 (hbounds e).2 hne hl ht0 ht1 hshort
  · obtain ⟨c, hc, hlength, hkind⟩ := stepLimit_of_index he
    refine ⟨c, hc, hlength.symm, hkind, fun e' c' hc' => ?_, fun t ht => ?_⟩
    · exact ⟨length_stepLimit_le hc', fun hlt => length_stepLimit_lt he hlt hc'⟩
    · exact ((hproposes e c).mp hc).isBeyond (hlength ▸ ht)
  · rw [index_stepLimit_eq_none_iff fun e c hc => ((hproposes e c).mp hc).length_le_one]
    exact forall_congr' fun e => get_candidates_eq_none_iff (hbounds e).1 (hbounds e).2
  · exact ⟨stepLimit_of_no_index hfull, kind_stepLimit_of_no_index hfull⟩

/-- A variable that rises from zero to one and a row that falls from one to zero, both half way, are
in the way of the same step. The variable comes first. -/
theorem stepLimit_maximal_tied :
    let lb : Vector EReal (1 + 1) := #v[0, 0]
    let ub : Vector EReal (1 + 1) := #v[1, ⊤]
    let value : Vector ℝ (1 + 1) := #v[0, 1]
    let s : ActiveSet ℝ (1 + 1) := ⟨#v[.inactive, .inactive], #v[0, 0]⟩
    let d : Direction ℝ (1 + 1) := ⟨#v[2, -2], #v[0, 0]⟩
    let limit := stepLimit (candidates lb ub value s d)
    (∀ e, lb.get e ≠ ⊤ ∧ ub.get e ≠ ⊥) ∧ limit.invalid = none ∧
      limit.index = some (Fin.castAdd 1 0) ∧ limit.length = 1 / 2 := by
  intro lb ub value s d limit
  have hbounds : ∀ e, lb.get e ≠ ⊤ ∧ ub.get e ≠ ⊥ := Fin.forall_fin_two.mpr
    ⟨⟨EReal.zero_ne_top, EReal.coe_ne_bot 1⟩, ⟨EReal.zero_ne_top, top_ne_bot⟩⟩
  obtain ⟨⟨hnone, -⟩, hvalid⟩ := stepLimit_maximal hbounds value s d
  have hinvalid : limit.invalid = none := hnone.mpr (Fin.forall_fin_two.mpr ⟨id, id⟩)
  obtain ⟨-, hindex, hfull, -⟩ := hvalid hinvalid
  have hrises : Proposes 0 1 0 2 0 0 .inactive ⟨1 / 2, .upperBound⟩ := by
    have hup : Proposes 0 1 0 2 0 0 .inactive ⟨max (1 - 0) 0 / 2, .upperBound⟩ :=
      .upperBound EReal.coe_one.symm (by norm_num) (by norm_num)
    norm_num at hup ⊢
    exact hup
  have hfalls : Proposes 0 ⊤ 1 (-2) 0 0 .inactive ⟨1 / 2, .lowerBound⟩ := by
    have hdown : Proposes 0 ⊤ 1 (-2) 0 0 .inactive ⟨min (0 - 1) 0 / -2, .lowerBound⟩ :=
      .lowerBound EReal.coe_zero.symm (by norm_num) (by norm_num)
    norm_num at hdown ⊢
    exact hdown
  have hvariable : (candidates lb ub value s d).get 0 = some ⟨1 / 2, .upperBound⟩ :=
    (get_candidates_eq_some_iff (hbounds 0).1 (hbounds 0).2).mpr hrises
  have hrow : (candidates lb ub value s d).get 1 = some ⟨1 / 2, .lowerBound⟩ :=
    (get_candidates_eq_some_iff (hbounds 1).1 (hbounds 1).2).mpr hfalls
  cases hlimit : limit.index with
  | none => exact absurd hrises.reaches (hfull.mp hlimit 0 1 _ zero_le_one le_rfl)
  | some e =>
    obtain ⟨c, hc, hlength, -, hshortest, -⟩ := hindex e hlimit
    by_cases hfirst : e = 0
    · subst hfirst
      obtain rfl : c = ⟨1 / 2, .upperBound⟩ := Option.some.inj (hc.symm.trans hvariable)
      exact ⟨hbounds, hinvalid, rfl, hlength.symm⟩
    · obtain rfl : e = 1 := Fin.eq_one_of_ne_zero e hfirst
      obtain rfl : c = ⟨1 / 2, .lowerBound⟩ := Option.some.inj (hc.symm.trans hrow)
      have hless := (hshortest 0 _ hvariable).2 Fin.zero_lt_one
      exact absurd hless hlength.le.not_gt

end QuadraticProgram
