import Mathlib.Data.Prod.Lex
import QuadraticProgram.Binary64.Flushed
import QuadraticProgram.Proofs.Comparison

/-! # The order of doubles

Comparisons of doubles are those of their places in a linear order: the sign first, then the
exponent, then the mantissa, with the infinities at the ends, one place for both zeros and none for
the value that is not a number. Taking subnormal values for zeros before a comparison changes the
places, but not that there are places.
-/
namespace QuadraticProgram

namespace Binary64

open Float.Model (UnpackedFloat)
open Scalar (IsNumber)

def place? : UnpackedFloat → Option (ℤ ×ₗ ℤ ×ₗ ℤ)
  | .notANumber => none
  | .infinity .negative => some (toLex (-2, toLex (0, 0)))
  | .finite .negative mantissa exponent _ => some (toLex (-1, toLex (-exponent, -mantissa)))
  | .zero _ => some (toLex (0, toLex (0, 0)))
  | .finite .positive mantissa exponent _ => some (toLex (1, toLex (exponent, mantissa)))
  | .infinity .positive => some (toLex (2, toLex (0, 0)))

/-- Exponents decide, and mantissas decide between equal exponents. -/
theorem compare_then_compare (sign e e' : ℤ) (m m' : ℕ) :
    let x := toLex (sign, toLex (e, (m : ℤ)))
    let y := toLex (sign, toLex (e', (m' : ℤ)))
    (compare e e').then (compare m m') = if x < y then .lt else if x = y then .eq else .gt := by
  intro x y
  have hlt : x < y ↔ e < e' ∨ e = e' ∧ m < m' := by simp [x, y, Prod.Lex.toLex_lt_toLex]
  have heq : x = y ↔ e = e' ∧ m = m' := by simp [x, y]
  rw [if_congr hlt rfl (if_congr heq rfl rfl)]
  rcases lt_trichotomy e e' with h | rfl | h
  · simp [compare_lt_iff_lt.mpr h, h]
  · rcases lt_trichotomy m m' with h | rfl | h
    · simp [compare_lt_iff_lt.mpr h, h]
    · simp
    · simp [compare_gt_iff_gt.mpr h, h.not_gt, h.ne']
  · simp [compare_gt_iff_gt.mpr h, h.not_gt, h.ne']

theorem compare_then_compare_swap (sign e e' : ℤ) (m m' : ℕ) :
    let x := toLex (sign, toLex (-e, -(m : ℤ)))
    let y := toLex (sign, toLex (-e', -(m' : ℤ)))
    ((compare e e').then (compare m m')).swap =
      if x < y then .lt else if x = y then .eq else .gt := by
  intro x y
  have hlt : x < y ↔ e' < e ∨ e' = e ∧ m' < m := by
    simp [x, y, Prod.Lex.toLex_lt_toLex, eq_comm]
  have heq : x = y ↔ e' = e ∧ m' = m := by simp [x, y, eq_comm]
  rw [Ordering.swap_then, ← Std.OrientedOrd.eq_swap, ← Std.OrientedOrd.eq_swap,
    compare_then_compare sign, if_congr hlt rfl (if_congr heq rfl rfl)]
  simp [Prod.Lex.toLex_lt_toLex]

/-- Comparing values is comparing places. -/
theorem compare_eq (a b : UnpackedFloat) :
    a.compare b = (place? a).bind fun x => (place? b).map fun y =>
      if x < y then .lt else if x = y then .eq else .gt := by
  cases a with
  | notANumber => rfl
  | zero s =>
    cases b with
    | notANumber => rfl
    | zero s' => rfl
    | infinity s' => cases s' <;> rfl
    | finite s' => cases s' <;> rfl
  | infinity s =>
    cases b with
    | notANumber => cases s <;> rfl
    | zero s' => cases s <;> rfl
    | infinity s' => cases s <;> cases s' <;> rfl
    | finite s' => cases s <;> cases s' <;> rfl
  | finite s m e =>
    cases b with
    | notANumber => cases s <;> rfl
    | zero s' => cases s <;> rfl
    | infinity s' => cases s <;> cases s' <;> rfl
    | finite s' m' e' =>
      cases s with
      | positive =>
        cases s' with
        | positive => exact congrArg some (compare_then_compare 1 e e' m m')
        | negative => rfl
      | negative =>
        cases s' with
        | positive => rfl
        | negative => exact congrArg some (compare_then_compare_swap (-1) e e' m m')

theorem le_iff_compare (a b : Float) :
    a ≤ b ↔ ((a.toModel.unpack.compare b.toModel.unpack).any (·.isLE)) = true :=
  decide_eq_true_iff

theorem le_iff (a b : Float) : a ≤ b ↔ ∃ x y, place? a.toModel.unpack = some x ∧
    place? b.toModel.unpack = some y ∧ x ≤ y := by
  rw [le_iff_compare, compare_eq]
  cases place? a.toModel.unpack with
  | none => simp
  | some x =>
    cases place? b.toModel.unpack with
    | none => simp
    | some y =>
      rcases lt_trichotomy x y with h | rfl | h
      · simp [h, h.le]
      · simp
      · simp [h.not_gt, h.ne', h]

theorem lt_iff (a b : Float) : a < b ↔ ∃ x y, place? a.toModel.unpack = some x ∧
    place? b.toModel.unpack = some y ∧ x < y := by
  have hlt : a < b ↔ (a.toModel.unpack.compare b.toModel.unpack == some .lt) = true :=
    decide_eq_true_iff
  rw [hlt, compare_eq]
  cases place? a.toModel.unpack with
  | none => simp
  | some x =>
    cases place? b.toModel.unpack with
    | none => simp
    | some y =>
      rcases lt_trichotomy x y with h | rfl | h
      · simp [h]
      · simp
      · simp [h.not_gt, h.ne']

theorem exists_place {u : UnpackedFloat} (h : u ≠ .notANumber) : ∃ x, place? u = some x := by
  cases u with
  | notANumber => exact absurd rfl h
  | zero s => exact ⟨_, rfl⟩
  | infinity s => cases s <;> exact ⟨_, rfl⟩
  | finite s => cases s <;> exact ⟨_, rfl⟩

theorem place_lt_largest {u : UnpackedFloat} {x : ℤ ×ₗ ℤ ×ₗ ℤ} (h : place? u = some x)
    (hne : u ≠ .infinity .positive) : x < toLex (2, toLex (0, 0)) := by
  cases u with
  | notANumber => cases h
  | zero s =>
    obtain rfl := Option.some.inj h
    simp [Prod.Lex.toLex_lt_toLex]
  | infinity s =>
    cases s with
    | positive => exact absurd rfl hne
    | negative =>
      obtain rfl := Option.some.inj h
      simp [Prod.Lex.toLex_lt_toLex]
  | finite s =>
    cases s <;> obtain rfl := Option.some.inj h <;> simp [Prod.Lex.toLex_lt_toLex]

theorem place_le_largest {u : UnpackedFloat} {x : ℤ ×ₗ ℤ ×ₗ ℤ} (h : place? u = some x) :
    x ≤ toLex (2, toLex (0, 0)) := by
  by_cases hlarge : u = .infinity .positive
  · rw [hlarge] at h
    exact (Option.some.inj h).ge
  · exact (place_lt_largest h hlarge).le

theorem smallest_lt_place {u : UnpackedFloat} {x : ℤ ×ₗ ℤ ×ₗ ℤ} (h : place? u = some x)
    (hne : u ≠ .infinity .negative) : toLex (-2, toLex (0, 0)) < x := by
  cases u with
  | notANumber => cases h
  | zero s =>
    obtain rfl := Option.some.inj h
    simp [Prod.Lex.toLex_lt_toLex]
  | infinity s =>
    cases s with
    | positive =>
      obtain rfl := Option.some.inj h
      simp [Prod.Lex.toLex_lt_toLex]
    | negative => exact absurd rfl hne
  | finite s =>
    cases s <;> obtain rfl := Option.some.inj h <;> simp [Prod.Lex.toLex_lt_toLex]

instance : Scalar.Ordered Float := .of_place (fun a => place? a.toModel.unpack) le_iff lt_iff

theorem isNumber_iff_ne {a : Float} : IsNumber a ↔ a.toModel.unpack ≠ .notANumber := by
  rw [IsNumber, le_iff]
  constructor
  · rintro ⟨x, -, hx, -⟩ hnan
    rw [hnan] at hx
    cases hx
  · intro h
    obtain ⟨x, hx⟩ := exists_place h
    exact ⟨x, x, hx, hx, le_rfl⟩

theorem isNumber_iff {a : Float} : IsNumber a ↔ a.isNaN = false := by
  have hnan : a.isNaN = a.toModel.unpack.isNaN := rfl
  rw [isNumber_iff_ne, hnan]
  cases a.toModel.unpack with
  | notANumber => exact iff_of_false (fun h => h rfl) Bool.noConfusion
  | _ => exact iff_of_true nofun rfl

theorem le_of_beq {a b : Float} (h : (a == b) = true) : a ≤ b := by
  have heq : a.toModel.unpack.compare b.toModel.unpack = some .eq := beq_iff_eq.mp h
  rw [le_iff_compare, heq]
  rfl

theorem max_cases (a b : Float) :
    maximum a b = a ∧ (IsNumber a → b ≤ a) ∨ maximum a b = b ∧ (IsNumber b → a ≤ b) := by
  rw [maximum, isNumber_iff, isNumber_iff]
  cases ha : a.isNaN with
  | true => exact Or.inl ⟨if_pos rfl, Bool.noConfusion⟩
  | false =>
    rw [if_neg Bool.false_ne_true]
    cases hb : b.isNaN with
    | true => exact Or.inr ⟨if_pos rfl, Bool.noConfusion⟩
    | false =>
      rw [if_neg Bool.false_ne_true]
      by_cases hlt : a < b
      · exact Or.inr ⟨by simp only [hlt, decide_true, Bool.true_or, if_true],
          fun _ => (Scalar.Ordered.lt_iff.mp hlt).1⟩
      · cases heq : a == b && signBit a with
        | true =>
          exact Or.inr ⟨by simp only [Bool.or_true, if_true],
            fun _ => le_of_beq (Bool.and_eq_true _ _ ▸ heq).1⟩
        | false =>
          refine Or.inl ⟨by simp only [hlt, decide_false, Bool.or_false, Bool.false_eq_true,
            if_false], fun _ => ?_⟩
          exact Scalar.le_of_not_lt (isNumber_iff.mpr ha) (isNumber_iff.mpr hb) hlt

end Binary64

namespace Flushed

open Float.Model (UnpackedFloat)

def place? (a : Flushed) : Option (ℤ ×ₗ ℤ ×ₗ ℤ) := Binary64.place? (flush a.value).toModel.unpack

theorem le_iff_place (a b : Flushed) :
    a ≤ b ↔ ∃ x y, place? a = some x ∧ place? b = some y ∧ x ≤ y :=
  Binary64.le_iff _ _

instance : Scalar.Ordered Flushed := .of_place place? le_iff_place fun _ _ => Binary64.lt_iff _ _

theorem same_iff_place (a b : Flushed) : Same a b ↔ ∃ x, place? a = some x ∧ place? b = some x := by
  rw [Same, le_iff_place, le_iff_place]
  constructor
  · rintro ⟨⟨x, y, hx, hy, hxy⟩, y', x', hy', hx', hyx⟩
    obtain rfl : x = x' := Option.some.inj (hx.symm.trans hx')
    obtain rfl : y = y' := Option.some.inj (hy.symm.trans hy')
    obtain rfl := le_antisymm hxy hyx
    exact ⟨x, hx, hy⟩
  · rintro ⟨x, hx, hy⟩
    exact ⟨⟨x, x, hx, hy, le_rfl⟩, x, x, hy, hx, le_rfl⟩

/-- A magnitude that is not finite is no small one, so it is kept. -/
theorem flush_of_not_isFinite {a : Float} (h : a.isFinite = false) : flush a = a := by
  have habs : a.abs.toModel = Float.Model.pack a.toModel.unpack.abs := rfl
  have hmagnitude : a.abs.toModel.unpack = .notANumber ∨
      a.abs.toModel.unpack = .infinity .positive := by
    have hfinite : a.toModel.unpack.isFinite = false := h
    rw [habs]
    cases hvalue : a.toModel.unpack with
    | notANumber => exact Or.inl (by rfl)
    | infinity s => cases s <;> exact Or.inr (by rfl)
    | zero s => exact Bool.noConfusion (hvalue ▸ hfinite)
    | finite s m e => exact Bool.noConfusion (hvalue ▸ hfinite)
  refine if_neg fun hsmall => ?_
  obtain ⟨x, y, hx, hy, hxy⟩ := (Binary64.lt_iff _ _).mp hsmall
  rcases hmagnitude with hvalue | hvalue
  · rw [hvalue] at hx
    cases hx
  · rw [hvalue] at hx
    obtain rfl : _ = x := Option.some.inj hx
    exact hxy.not_ge (Binary64.place_le_largest hy)

theorem place?_of_not_isFinite {a : Flushed} (h : Bound.isFinite a = false) :
    place? a = none ∨ place? a = place? Bound.posInf ∨ place? a = place? Bound.negInf := by
  have hkept : place? a = Binary64.place? a.value.toModel.unpack := by
    rw [place?, flush_of_not_isFinite h]
  have hpositive : place? Bound.posInf = Binary64.place? (.infinity .positive) := by
    rw [place?, flush_of_not_isFinite (by rfl)]
    rfl
  have hnegative : place? Bound.negInf = Binary64.place? (.infinity .negative) := by
    rw [place?, flush_of_not_isFinite (by rfl)]
    rfl
  have hfinite : a.value.toModel.unpack.isFinite = false := h
  rw [hkept, hpositive, hnegative]
  cases hvalue : a.value.toModel.unpack with
  | notANumber => exact Or.inl rfl
  | infinity s =>
    cases s with
    | positive => exact Or.inr (Or.inl rfl)
    | negative => exact Or.inr (Or.inr rfl)
  | zero s => exact Bool.noConfusion (hvalue ▸ hfinite)
  | finite s m e => exact Bool.noConfusion (hvalue ▸ hfinite)

instance : Bound.Ordered Flushed Flushed where
  isFinite_of_same {a b} hab ha hb := by
    obtain ⟨x, hax, hbx⟩ := (same_iff_place a b).mp hab
    rw [same_iff_place, hax] at ha
    rw [same_iff_place, hbx] at hb
    -- a value at the place of both that is not finite would be one of the excluded infinities
    have hfinite : ∀ c : Flushed, place? c = some x → Bound.isFinite c = true := by
      intro c hcx
      by_contra hne
      rcases place?_of_not_isFinite (Bool.not_eq_true _ ▸ hne) with h | h | h
      · exact Option.some_ne_none x (hcx.symm.trans h)
      · exact ha ⟨x, rfl, h.symm.trans hcx⟩
      · exact hb ⟨x, rfl, h.symm.trans hcx⟩
    exact ⟨hfinite a hax, hfinite b hbx⟩

end Flushed

end QuadraticProgram
