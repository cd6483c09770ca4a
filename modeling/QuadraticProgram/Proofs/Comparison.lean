import Mathlib.Data.Fin.Tuple.Basic
import Mathlib.Order.Basic
import QuadraticProgram.Dense
import QuadraticProgram.Exact

/-! # Arithmetic whose comparisons are those of an order

Nothing is assumed of sums and products, which may round, but comparisons can be relied on: numbers
are in a total preorder, and a value that is not a number compares with nothing. That is enough for
a search to find the first of the least values, for an equality between bounds to have a finite
side, and for a maximum to be below exactly what all of its terms are below.
-/
namespace QuadraticProgram

/-- Comparisons hold between numbers only, and order them totally. -/
class Scalar.Ordered (α : Type) [Scalar α] : Prop where
  isNumber_of_le {a b : α} : a ≤ b → IsNumber a ∧ IsNumber b
  trans {a b c : α} : a ≤ b → b ≤ c → a ≤ c
  total {a b : α} : IsNumber a → IsNumber b → a ≤ b ∨ b ≤ a
  lt_iff {a b : α} : a < b ↔ a ≤ b ∧ ¬ b ≤ a

/-- Bounds that coincide are finite, unless the lower one is the largest value or the upper one is
the smallest. -/
class Bound.Ordered (α : outParam Type) (β : Type) [Bound α β] : Prop where
  isFinite_of_same {a b : β} : Same a b → ¬ Same a posInf → ¬ Same b negInf →
    isFinite a = true ∧ isFinite b = true

namespace Scalar

variable {α : Type} [Scalar α]

/-- Numbers that are found by their places in a linear order are ordered. -/
theorem Ordered.of_place {L : Type} [LinearOrder L] (place? : α → Option L)
    (le_iff : ∀ a b : α, a ≤ b ↔ ∃ x y, place? a = some x ∧ place? b = some y ∧ x ≤ y)
    (lt_iff : ∀ a b : α, a < b ↔ ∃ x y, place? a = some x ∧ place? b = some y ∧ x < y) :
    Ordered α where
  isNumber_of_le {a b} h := by
    obtain ⟨x, y, hx, hy, -⟩ := (le_iff a b).mp h
    exact ⟨(le_iff a a).mpr ⟨x, x, hx, hx, le_rfl⟩, (le_iff b b).mpr ⟨y, y, hy, hy, le_rfl⟩⟩
  trans {a b c} hab hbc := by
    obtain ⟨x, y, hx, hy, hxy⟩ := (le_iff a b).mp hab
    obtain ⟨y', z, hy', hz, hyz⟩ := (le_iff b c).mp hbc
    obtain rfl : y = y' := Option.some.inj (hy.symm.trans hy')
    exact (le_iff a c).mpr ⟨x, z, hx, hz, hxy.trans hyz⟩
  total {a b} ha hb := by
    obtain ⟨x, -, hx, -⟩ := (le_iff a a).mp ha
    obtain ⟨y, -, hy, -⟩ := (le_iff b b).mp hb
    exact (le_total x y).imp (fun h => (le_iff a b).mpr ⟨x, y, hx, hy, h⟩)
      fun h => (le_iff b a).mpr ⟨y, x, hy, hx, h⟩
  lt_iff {a b} := by
    constructor
    · intro h
      obtain ⟨x, y, hx, hy, hxy⟩ := (lt_iff a b).mp h
      refine ⟨(le_iff a b).mpr ⟨x, y, hx, hy, hxy.le⟩, fun hba => ?_⟩
      obtain ⟨y', x', hy', hx', hyx⟩ := (le_iff b a).mp hba
      obtain rfl : x = x' := Option.some.inj (hx.symm.trans hx')
      obtain rfl : y = y' := Option.some.inj (hy.symm.trans hy')
      exact hxy.not_ge hyx
    · rintro ⟨hab, hba⟩
      obtain ⟨x, y, hx, hy, -⟩ := (le_iff a b).mp hab
      refine (lt_iff a b).mpr ⟨x, y, hx, hy, lt_of_not_ge fun hyx => ?_⟩
      exact hba ((le_iff b a).mpr ⟨y, x, hy, hx, hyx⟩)

instance : Ordered ℝ where
  isNumber_of_le _ := ⟨le_rfl, le_rfl⟩
  trans := le_trans
  total _ _ := le_total _ _
  lt_iff := lt_iff_le_not_ge

variable [Ordered α] {a b c : α}

theorem precedes_asymm (h : precedes a b = true) : precedes b a = false := by
  rw [precedes, decide_eq_true_eq] at h
  rw [precedes, decide_eq_false_iff_not]
  rintro (hba | ⟨hb, ha⟩)
  · rcases h with hab | ⟨ha, -⟩
    · exact (Ordered.lt_iff.mp hba).2 (Ordered.lt_iff.mp hab).1
    · exact ha (Ordered.isNumber_of_le (Ordered.lt_iff.mp hba).1).2
  · rcases h with hab | ⟨hna, -⟩
    · exact hb (Ordered.isNumber_of_le (Ordered.lt_iff.mp hab).1).2
    · exact hna ha

theorem precedes_or_precedes (b : α) (h : precedes a c = true) :
    precedes a b = true ∨ precedes b c = true := by
  simp only [precedes, decide_eq_true_eq] at h ⊢
  have hc : IsNumber c :=
    h.elim (fun hac => (Ordered.isNumber_of_le (Ordered.lt_iff.mp hac).1).2) And.right
  by_cases hb : IsNumber b
  · rcases h with hac | ⟨ha, -⟩
    · obtain ⟨hle, hnot⟩ := Ordered.lt_iff.mp hac
      have ha := (Ordered.isNumber_of_le hle).1
      by_cases hba : b ≤ a
      -- from `b` to `c` by way of `a`, and not back
      · exact Or.inr (Or.inl (Ordered.lt_iff.mpr
          ⟨Ordered.trans hba hle, fun hcb => hnot (Ordered.trans hcb hba)⟩))
      · exact Or.inl (Or.inl (Ordered.lt_iff.mpr ⟨(Ordered.total ha hb).resolve_right hba, hba⟩))
    · exact Or.inl (Or.inr ⟨ha, hb⟩)
  · exact Or.inr (Or.inr ⟨hb, hc⟩)

theorem le_of_not_lt (ha : IsNumber a) (hb : IsNumber b) (h : ¬ a < b) : b ≤ a := by
  by_contra hba
  exact h (Ordered.lt_iff.mpr ⟨(Ordered.total ha hb).resolve_right hba, hba⟩)

/-- The larger of two values is below exactly what both are below, if it is one of them that is not
below the other, and not a number as soon as one of them is not. -/
theorem lawfulOrderSup_of_ordered (hmax : ∀ a b : α,
    max a b = a ∧ (IsNumber a → b ≤ a) ∨ max a b = b ∧ (IsNumber b → a ≤ b)) :
    Std.LawfulOrderSup α where
  max_le_iff a b c := by
    rcases hmax a b with ⟨heq, hle⟩ | ⟨heq, hle⟩ <;> rw [heq]
    · exact ⟨fun h => ⟨h, Ordered.trans (hle (Ordered.isNumber_of_le h).1) h⟩, And.left⟩
    · exact ⟨fun h => ⟨Ordered.trans (hle (Ordered.isNumber_of_le h).1) h, h⟩, And.right⟩

end Scalar

section Maxima

variable {n : ℕ}

theorem largest_le_iff {α : Type} [Scalar α] [Std.LawfulOrderSup α] {f : Fin n → α} {c : α} :
    largest f ≤ c ↔ 0 ≤ c ∧ ∀ i, f i ≤ c := by
  induction n with
  | zero => simp [largest_zero]
  | succ n ih => rw [largest_succ, Std.max_le_iff, ih, Fin.forall_fin_succ', and_assoc]

theorem foldl_max_le_iff {β : Type} [LE β] [Max β] [Std.LawfulOrderSup β] {f g : Fin n → β}
    {b c : β} :
    Fin.foldl n (fun worst e => max (max worst (f e)) (g e)) b ≤ c ↔
      b ≤ c ∧ ∀ e, f e ≤ c ∧ g e ≤ c := by
  induction n with
  | zero => simp
  | succ n ih =>
    simp only [Fin.foldl_succ_last, Std.max_le_iff, ih, Fin.forall_fin_succ', and_assoc]

end Maxima

/-- A search by a scalar value finds the first of the least values. -/
theorem isFirstLeast_precedes {α τ : Type} [Scalar α] [Scalar.Ordered α] {n : ℕ} (value : τ → α)
    (f : Fin n → Option τ) :
    IsFirstLeast (fun a b => Scalar.precedes (value a) (value b)) f n
      (firstLeast? (fun a b => Scalar.precedes (value a) (value b)) f) :=
  isFirstLeast_firstLeast? (fun _ _ => Scalar.precedes_asymm)
    fun _ b _ => Scalar.precedes_or_precedes (value b)

instance : Bound.Ordered ℝ EReal where
  isFinite_of_same {a b} hab ha hb := by
    obtain rfl := (same_ereal a b).mp hab
    rw [same_ereal] at ha hb
    have hfinite : Bound.isFinite a = true := decide_eq_true ⟨ha, hb⟩
    exact ⟨hfinite, hfinite⟩

end QuadraticProgram
