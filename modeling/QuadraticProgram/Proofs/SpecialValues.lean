import QuadraticProgram.Extended
import QuadraticProgram.Proofs.Binary64
import QuadraticProgram.Proofs.Finiteness

/-! # Special values and the check of a point

Double precision and the exact reading with special values both have infinities and a value that is
not a number. In either of them such a value spreads through sums and products and is kept by the
larger of two values, so the check of a point refuses it wherever it stands.
-/
namespace QuadraticProgram

namespace Extended

open Scalar (IsNumber)

instance : Scalar.Ordered Extended := .of_place place? (fun _ _ => Iff.rfl) fun _ _ => Iff.rfl

theorem le_iff {a b : Extended} :
    a ≤ b ↔ ∃ x y, place? a = some x ∧ place? b = some y ∧ x ≤ y :=
  Iff.rfl

theorem real_le_real {x y : ℝ} : real x ≤ real y ↔ x ≤ y := by
  constructor
  · rintro ⟨_, _, ⟨⟩, ⟨⟩, hle⟩
    exact EReal.coe_le_coe_iff.mp hle
  · exact fun h => ⟨_, _, rfl, rfl, EReal.coe_le_coe_iff.mpr h⟩

theorem max_cases (a b : Extended) :
    max a b = a ∧ (IsNumber a → b ≤ a) ∨ max a b = b ∧ (IsNumber b → a ≤ b) := by
  have hmax : max a b = if ¬ a ≤ a then a else if ¬ b ≤ b then b else if a < b then b else a := rfl
  by_cases ha : a ≤ a
  · by_cases hb : b ≤ b
    · by_cases hlt : a < b
      · exact Or.inr ⟨by simp [hmax, ha, hb, hlt], fun _ => (Scalar.Ordered.lt_iff.mp hlt).1⟩
      · exact Or.inl ⟨by simp [hmax, ha, hb, hlt], fun _ => Scalar.le_of_not_lt ha hb hlt⟩
    · exact Or.inr ⟨by simp [hmax, ha, hb], fun h => absurd h hb⟩
  · exact Or.inl ⟨by simp [hmax, ha], fun h => absurd h ha⟩

theorem belowPosInf_iff {a : Extended} :
    Bound.BelowPosInf a ↔ a ≠ notANumber ∧ a ≠ infinity false := by
  change a ≤ a ∧ ¬ infinity false ≤ a ↔ _
  cases a with
  | real x => simp [le_iff, place?]
  | infinity s => cases s <;> simp [le_iff, place?]
  | notANumber => simp [le_iff, place?]

theorem aboveNegInf_iff {a : Extended} :
    Bound.AboveNegInf a ↔ a ≠ notANumber ∧ a ≠ infinity true := by
  change a ≤ a ∧ ¬ a ≤ infinity true ↔ _
  cases a with
  | real x => simp [le_iff, place?]
  | infinity s => cases s <;> simp [le_iff, place?]
  | notANumber => simp [le_iff, place?]

theorem max_self (a : Extended) : max a a = a := (max_cases a a).elim And.left And.left

theorem min_self (a : Extended) : min a a = a := by
  have hmin : min a a = if ¬ a ≤ a then a else if ¬ a ≤ a then a else if a < a then a else a := rfl
  simp [hmin]

/-- What is at most a finite value is a number, and not the largest one. -/
theorem ne_of_le {a c : Extended} (h : a ≤ c) (hc : c.isFinite = true) :
    a ≠ notANumber ∧ a ≠ infinity false := by
  have hbelow : Bound.BelowPosInf c := belowPosInf_iff.mpr (by cases c <;> simp_all [isFinite])
  exact belowPosInf_iff.mp ⟨(Scalar.Ordered.isNumber_of_le h).1,
    fun hlarge => hbelow.2 (Scalar.Ordered.trans hlarge h)⟩

theorem ne_of_sub {a b : Extended} (hnan : a - b ≠ notANumber) (hlarge : a - b ≠ infinity false) :
    (a ≠ notANumber ∧ a ≠ infinity false) ∧ b ≠ notANumber ∧ b ≠ infinity true := by
  refine ⟨⟨?_, ?_⟩, ?_, ?_⟩ <;> rintro rfl
  · exact hnan rfl
  · cases b with
    | real y => exact hlarge rfl
    | infinity t =>
      cases t with
      | false => exact hnan rfl
      | true => exact hlarge rfl
    | notANumber => exact hnan rfl
  · cases a <;> exact hnan rfl
  · cases a with
    | real x => exact hlarge rfl
    | infinity s =>
      cases s with
      | false => exact hlarge rfl
      | true => exact hnan rfl
    | notANumber => exact hnan rfl

theorem isFinite_of_add {a b : Extended} (h : (a + b).isFinite = true) :
    a.isFinite = true ∧ b.isFinite = true := by
  cases a with
  | real x =>
    cases b with
    | real y => exact ⟨rfl, rfl⟩
    | _ => cases h
  | infinity s =>
    cases b with
    | infinity t => cases s <;> cases t <;> cases h
    | _ => cases h
  | notANumber => cases h

theorem isFinite_of_mul {a b : Extended} (h : (a * b).isFinite = true) :
    a.isFinite = true ∧ b.isFinite = true := by
  cases a with
  | real x =>
    cases b with
    | real y => exact ⟨rfl, rfl⟩
    | infinity t =>
      change (if x = 0 then notANumber else infinity (decide (x < 0) != t)).isFinite = true at h
      split at h <;> cases h
    | notANumber => cases h
  | infinity s =>
    cases b with
    | real y =>
      change (if y = 0 then notANumber else infinity (s != decide (y < 0))).isFinite = true at h
      split at h <;> cases h
    | _ => cases h
  | notANumber => cases h

instance : Scalar.Contagious Extended where
  toLawfulOrderSup := Scalar.lawfulOrderSup_of_ordered max_cases
  isFinite_of_add := isFinite_of_add
  isFinite_of_mul := isFinite_of_mul
  isFinite_of_le {a c} h hneg hc := by
    cases a with
    | real x => rfl
    | infinity s =>
      cases s with
      | false => exact absurd rfl (ne_of_le h hc).2
      | true => exact absurd rfl (ne_of_le hneg hc).2
    | notANumber => exact absurd rfl (ne_of_le h hc).1

instance : Bound.Contagious Extended Extended where
  toLawfulOrderSup := Scalar.lawfulOrderSup_of_ordered max_cases
  numbers_of_sub_le h hc := by
    obtain ⟨hnan, hlarge⟩ := ne_of_le h hc
    rw [belowPosInf_iff, aboveNegInf_iff]
    exact ne_of_sub hnan hlarge

end Extended

namespace Binary64

open Float.Model (UnpackedFloat)

/-! The residuals of a solution are computed in this arithmetic, so `Problem.IsOptimal.isFiniteAt`
is about the check that is run. -/

theorem belowPosInf_iff {a : Float} : Bound.BelowPosInf a ↔
    a.toModel.unpack ≠ .notANumber ∧ a.toModel.unpack ≠ .infinity .positive := by
  have hlarge : place? infinity.toModel.unpack = some (toLex (2, toLex (0, 0))) := rfl
  refine and_congr isNumber_iff_ne (not_congr ⟨fun h => ?_, fun h => ?_⟩)
  · by_contra hne
    obtain ⟨x, y, hx, hy, hxy⟩ := (le_iff _ _).mp h
    obtain rfl := Option.some.inj (hlarge.symm.trans hx)
    exact (place_lt_largest hy hne).not_ge hxy
  · exact (le_iff _ _).mpr ⟨_, _, hlarge, congrArg place? h, le_rfl⟩

theorem aboveNegInf_iff {a : Float} : Bound.AboveNegInf a ↔
    a.toModel.unpack ≠ .notANumber ∧ a.toModel.unpack ≠ .infinity .negative := by
  have hsmall : place? (-infinity).toModel.unpack = some (toLex (-2, toLex (0, 0))) := rfl
  refine and_congr isNumber_iff_ne (not_congr ⟨fun h => ?_, fun h => ?_⟩)
  · by_contra hne
    obtain ⟨x, y, hx, hy, hxy⟩ := (le_iff _ _).mp h
    obtain rfl := Option.some.inj (hsmall.symm.trans hy)
    exact (smallest_lt_place hx hne).not_ge hxy
  · exact (le_iff _ _).mpr ⟨_, _, congrArg place? h, hsmall, le_rfl⟩

theorem isFinite_of_pack {u : UnpackedFloat}
    (h : (Float.Model.pack u).unpack.isFinite = true) : u.isFinite = true := by
  cases u with
  | notANumber => exact h
  | infinity s => cases s <;> exact h
  | zero s => rfl
  | finite s m e => rfl

theorem isFinite_of_add {u v : UnpackedFloat} (h : (u.add .binary64 v).isFinite = true) :
    u.isFinite = true ∧ v.isFinite = true := by
  cases u with
  | notANumber => cases h
  | infinity s =>
    cases v with
    | infinity t => cases s <;> cases t <;> cases h
    | _ => cases h
  | zero s =>
    cases v with
    | zero t => exact ⟨rfl, rfl⟩
    | finite => exact ⟨rfl, rfl⟩
    | _ => cases h
  | finite s =>
    cases v with
    | zero t => exact ⟨rfl, rfl⟩
    | finite => exact ⟨rfl, rfl⟩
    | _ => cases h

theorem isFinite_of_mul {u v : UnpackedFloat} (h : (u.mul .binary64 v).isFinite = true) :
    u.isFinite = true ∧ v.isFinite = true := by
  cases u with
  | notANumber => cases h
  | infinity s => cases v <;> cases h
  | zero s =>
    cases v with
    | zero t => exact ⟨rfl, rfl⟩
    | finite => exact ⟨rfl, rfl⟩
    | _ => cases h
  | finite s =>
    cases v with
    | zero t => exact ⟨rfl, rfl⟩
    | finite => exact ⟨rfl, rfl⟩
    | _ => cases h

theorem ne_of_sub {u v : UnpackedFloat} (hnan : u.sub .binary64 v ≠ .notANumber)
    (hlarge : u.sub .binary64 v ≠ .infinity .positive) :
    (u ≠ .notANumber ∧ u ≠ .infinity .positive) ∧ v ≠ .notANumber ∧ v ≠ .infinity .negative := by
  refine ⟨⟨?_, ?_⟩, ?_, ?_⟩ <;> rintro rfl
  · exact hnan rfl
  · cases v with
    | notANumber => exact hnan rfl
    | infinity t =>
      cases t with
      | positive => exact hnan rfl
      | negative => exact hlarge rfl
    | _ => exact hlarge rfl
  · cases u <;> exact hnan rfl
  · cases u with
    | notANumber => exact hnan rfl
    | infinity t =>
      cases t with
      | positive => exact hlarge rfl
      | negative => exact hnan rfl
    | _ => exact hlarge rfl

/-- What is at most a finite value is a number, and not the largest one. -/
theorem ne_of_le {a c : Float} (h : a ≤ c) (hc : c.isFinite = true) :
    a.toModel.unpack ≠ .notANumber ∧ a.toModel.unpack ≠ .infinity .positive := by
  have hfinite : c.toModel.unpack.isFinite = true := hc
  have hbelow : Bound.BelowPosInf c := by
    rw [belowPosInf_iff]
    constructor <;> intro hvalue <;> rw [hvalue] at hfinite <;> cases hfinite
  exact belowPosInf_iff.mp ⟨(Scalar.Ordered.isNumber_of_le h).1,
    fun hlarge => hbelow.2 (Scalar.Ordered.trans hlarge h)⟩

instance : Scalar.Contagious Float where
  toLawfulOrderSup := Scalar.lawfulOrderSup_of_ordered max_cases
  isFinite_of_add h := isFinite_of_add (isFinite_of_pack h)
  isFinite_of_mul h := isFinite_of_mul (isFinite_of_pack h)
  isFinite_of_le {a c} h hneg hc := by
    change a.toModel.unpack.isFinite = true
    have hnegative : (Float.Model.pack a.toModel.unpack.neg).unpack ≠ .infinity .positive :=
      (ne_of_le hneg hc).2
    obtain ⟨hnan, hlarge⟩ := ne_of_le h hc
    cases hvalue : a.toModel.unpack with
    | notANumber => exact absurd hvalue hnan
    | infinity s =>
      cases s with
      | positive => exact absurd hvalue hlarge
      | negative =>
        rw [hvalue] at hnegative
        exact absurd rfl hnegative
    | zero s => rfl
    | finite s m e => rfl

instance : Bound.Contagious Float Float where
  toLawfulOrderSup := Scalar.lawfulOrderSup_of_ordered max_cases
  numbers_of_sub_le {a b c} h hc := by
    have hne : (Float.Model.pack (a.toModel.unpack.sub .binary64 b.toModel.unpack)).unpack ≠
        .notANumber ∧ (Float.Model.pack (a.toModel.unpack.sub .binary64 b.toModel.unpack)).unpack ≠
          .infinity .positive := ne_of_le h hc
    rw [belowPosInf_iff, aboveNegInf_iff]
    exact ne_of_sub (fun h => hne.1 (by rw [h]; rfl)) fun h => hne.2 (by rw [h]; rfl)

end Binary64

/-- The second of two values is lost if it is not a number. -/
theorem firstUnlessExceeded_of_not_isNumber {α : Type} [Scalar α] [Scalar.Ordered α] {a b : α}
    (h : ¬ Scalar.IsNumber b) : firstUnlessExceeded a b = a :=
  if_neg fun hlt => h (Scalar.Ordered.isNumber_of_le (Scalar.Ordered.lt_iff.mp hlt).1).2

/-- A value that is not finite, in the point, the multipliers or the data, and a bound that no value
can keep are refused at every tolerance. -/
theorem special_values_refused {n m : ℕ} (hn : 0 < n) (P : Problem Extended Extended n m)
    (p : PrimalDual Extended n m)
    (hspecial : (∃ i, (p.point.get i).isFinite = false) ∨
      (∃ e, (p.multiplier.get e).isFinite = false) ∨
      (∃ i j, (P.hessian.entry i j).isFinite = false) ∨ (∃ i, (P.linear.get i).isFinite = false) ∨
      (∃ j i, (P.constraints.entry j i).isFinite = false) ∨
      (∃ e, P.lower.get e = .notANumber ∨ P.upper.get e = .notANumber) ∨
      ∃ e, P.lower.get e = .infinity false ∨ P.upper.get e = .infinity true)
    (tolerance : ℝ) : ¬ P.IsOptimal p (.real tolerance) := by
  intro hoptimal
  have hfinite := hoptimal.isFiniteAt hn rfl
  have hlower := fun e => Extended.belowPosInf_iff.mp (hfinite.lower e)
  have hupper := fun e => Extended.aboveNegInf_iff.mp (hfinite.upper e)
  rcases hspecial with ⟨i, h⟩ | ⟨e, h⟩ | ⟨i, j, h⟩ | ⟨i, h⟩ | ⟨j, i, h⟩ | ⟨e, h | h⟩ | ⟨e, h | h⟩
  · exact Bool.noConfusion (h.symm.trans (hfinite.point i))
  · exact Bool.noConfusion (h.symm.trans (hfinite.multiplier e))
  · exact Bool.noConfusion (h.symm.trans (hfinite.hessian i j))
  · exact Bool.noConfusion (h.symm.trans (hfinite.linear i))
  · exact Bool.noConfusion (h.symm.trans (hfinite.constraints j i))
  · exact (hlower e).1 h
  · exact (hupper e).1 h
  · exact (hlower e).2 h
  · exact (hupper e).2 h

section EmptyRow

open Extended

/-- One variable and a row without entries, all of them fixed at zero. -/
noncomputable def Problem.emptyRow : Problem Extended Extended 1 1 where
  hessian := Mat.ofFn fun _ _ => 1
  linear := Vector.ofFn fun _ => 0
  constraints := Mat.ofFn fun _ _ => 0
  lower := Vector.ofFn fun _ => 0
  upper := Vector.ofFn fun _ => 0
  ordered e := by
    rw [get_ofFn]
    exact decide_eq_false fun h => (Scalar.Ordered.lt_iff.mp h).2 (Scalar.Ordered.lt_iff.mp h).1

noncomputable def PrimalDual.pushed : PrimalDual Extended 1 1 :=
  ⟨Vector.ofFn fun _ => 0, join (Vector.ofFn fun _ => 0) (Vector.ofFn fun _ => infinity false)⟩

theorem bounds_emptyRow (e : Fin (1 + 1)) :
    Problem.emptyRow.lower.get e = real 0 ∧ Problem.emptyRow.upper.get e = real 0 :=
  ⟨get_ofFn _ e, get_ofFn _ e⟩

theorem get_value_pushed (e : Fin (1 + 1)) :
    (Problem.emptyRow.valuesAt PrimalDual.pushed.point).get e = real 0 := by
  refine Fin.addCases (fun i => ?_) (fun j => ?_) e
  · rw [Problem.valuesAt, get_join_castAdd]
    exact get_ofFn _ i
  · have hterm : Problem.emptyRow.constraints.entry j 0 * PrimalDual.pushed.point.get 0 =
        real 0 := by
      rw [Problem.emptyRow, Mat.entry_ofFn, PrimalDual.pushed, get_ofFn]
      exact congrArg real (mul_zero 0)
    rw [Problem.valuesAt, get_join_natAdd, Mat.get_mulVec, sum_succ, sum_zero]
    exact (congrArg (0 + ·) hterm).trans (congrArg real (add_zero 0))

theorem primal_pushed : (Problem.emptyRow.residuals .pushed).primal ≤ real 0 := by
  have hgap : real 0 - real 0 ≤ real 0 := real_le_real.mpr (by simp)
  refine Problem.violations_le_iff.mpr ⟨real_le_real.mpr le_rfl, fun e => ?_⟩
  rw [get_value_pushed, (bounds_emptyRow e).1, (bounds_emptyRow e).2]
  exact ⟨hgap, hgap⟩

noncomputable def gapPushed (e : Fin (1 + 1)) : Extended :=
  complementarityGap (Problem.emptyRow.lower.get e) (Problem.emptyRow.upper.get e)
    ((Problem.emptyRow.valuesAt PrimalDual.pushed.point).get e)
    (PrimalDual.pushed.multiplier.get e)

theorem gapPushed_eq (e : Fin (1 + 1)) : gapPushed e =
    max (Scalar.abs (real 0 * min (PrimalDual.pushed.multiplier.get e) (real 0)))
      (Scalar.abs (real 0 * max (PrimalDual.pushed.multiplier.get e) (real 0))) := by
  have hgap : real 0 - real 0 = real 0 := congrArg real (by simp)
  rw [gapPushed, get_value_pushed, (bounds_emptyRow e).1, (bounds_emptyRow e).2]
  exact congrArg (fun a => max (Scalar.abs (a * min (PrimalDual.pushed.multiplier.get e) (real 0)))
    (Scalar.abs (a * max (PrimalDual.pushed.multiplier.get e) (real 0)))) hgap

theorem gapPushed_castAdd_le (i : Fin 1) : gapPushed (i.castAdd 1) ≤ real 0 := by
  have hmultiplier : PrimalDual.pushed.multiplier.get (i.castAdd 1) = real 0 := by
    rw [PrimalDual.pushed, get_join_castAdd]
    exact get_ofFn _ i
  have hterm : real 0 * real 0 = real 0 := congrArg real (mul_zero 0)
  have habs : Scalar.abs (real 0) ≤ real 0 :=
    Std.max_le_iff.mpr ⟨real_le_real.mpr le_rfl, real_le_real.mpr (by simp)⟩
  rw [gapPushed_eq, hmultiplier, min_self, Extended.max_self, hterm]
  exact Std.max_le_iff.mpr ⟨habs, habs⟩

theorem not_isNumber_gapPushed_natAdd (j : Fin 1) : ¬ Scalar.IsNumber (gapPushed (j.natAdd 1)) := by
  have hmultiplier : PrimalDual.pushed.multiplier.get (j.natAdd 1) = infinity false := by
    rw [PrimalDual.pushed, get_join_natAdd, get_ofFn]
  have hmax : max (infinity false) (real 0) = infinity false :=
    (max_cases _ _).elim And.left fun h =>
      absurd (h.2 (real_le_real.mpr le_rfl)) fun hle => (ne_of_le hle rfl).2 rfl
  have hterm : real 0 * infinity false = notANumber := if_pos rfl
  rw [gapPushed_eq, hmultiplier, hmax, hterm]
  intro hnumber
  obtain ⟨x, -, hx, -⟩ := (Std.max_le_iff.mp (Std.max_le_iff.mp hnumber).2).1
  cases hx

/-- The product on the row is not a number and is lost, since it comes second. -/
theorem complementarity_pushed :
    (Problem.emptyRow.residuals .pushed).complementarity ≤ real 0 := by
  have hrow : ¬ Scalar.IsNumber (largest fun j : Fin 1 => gapPushed (j.natAdd 1)) := fun hnumber =>
    not_isNumber_gapPushed_natAdd 0
      (Scalar.Ordered.isNumber_of_le ((largest_le_iff.mp hnumber).2 0)).1
  change firstUnlessExceeded (largest fun i : Fin 1 => gapPushed (i.castAdd 1))
    (largest fun j : Fin 1 => gapPushed (j.natAdd 1)) ≤ _
  rw [firstUnlessExceeded_of_not_isNumber hrow]
  exact largest_le_iff.mpr ⟨real_le_real.mpr le_rfl, gapPushed_castAdd_le⟩

/-- A push on a row without entries shows only in the gradient, where it meets a zero. -/
theorem special_values_refused_emptyRow :
    0 < 1 ∧ (PrimalDual.pushed.multiplier.get (Fin.natAdd 1 0)).isFinite = false ∧
      (Problem.emptyRow.residuals .pushed).primal ≤ real 0 ∧
      (Problem.emptyRow.residuals .pushed).complementarity ≤ real 0 ∧
      ¬ Problem.emptyRow.IsOptimal .pushed (real 0) := by
  have hspecial : (PrimalDual.pushed.multiplier.get (Fin.natAdd 1 0)).isFinite = false := by
    rw [PrimalDual.pushed, get_join_natAdd, get_ofFn]
    rfl
  exact ⟨Nat.one_pos, hspecial, primal_pushed, complementarity_pushed,
    special_values_refused Nat.one_pos _ _ (Or.inr (Or.inl ⟨_, hspecial⟩)) 0⟩

end EmptyRow

end QuadraticProgram
