import Mathlib.Algebra.BigOperators.Field
import Mathlib.Tactic.FieldSimp
import Mathlib.Tactic.Linarith
import Mathlib.Tactic.LinearCombination
import QuadraticProgram.Householder
import QuadraticProgram.Proofs.Exact.Dense

/-! # Exact reflections

A reflector whose coefficient fits the length of its vector is an involution that keeps inner
products. The reflector worked out for a column fits, and it takes the column below its leading
entry to zero. The loops that look only at rows and columns a reflection can change compute the
whole reflection.
-/
namespace QuadraticProgram
open Matrix

variable {n : ℕ}

theorem reflect_real (b : ℝ) (v x : Vector ℝ n) :
    (reflect b v x).get = x.get - (b * (v.get ⬝ᵥ x.get)) • v.get := by
  funext i
  rw [get_reflect, dot_real, Pi.sub_apply, Pi.smul_apply, smul_eq_mul]
  ring

theorem reflect_smul (c b : ℝ) (v x : Vector ℝ n) : reflect b v (c • x) = c • reflect b v x := by
  apply vector_ext
  intro i
  rw [get_smul, reflect_real, reflect_real, get_smul_eq, dotProduct_smul]
  simp only [Pi.sub_apply, Pi.smul_apply, smul_eq_mul]
  ring

/-- The coefficient makes the reflection an involution: there is none, or it fits the length of the
vector. -/
def Fits (b : ℝ) (v : Vector ℝ n) : Prop := b = 0 ∨ b * (v.get ⬝ᵥ v.get) = 2

theorem reflect_zero (v x : Vector ℝ n) : reflect 0 v x = x :=
  vector_ext fun i => by simp [get_reflect]

theorem reflect_dotProduct (b : ℝ) (v x y : Vector ℝ n) :
    (reflect b v x).get ⬝ᵥ y.get = x.get ⬝ᵥ (reflect b v y).get := by
  rw [reflect_real, reflect_real, sub_dotProduct, dotProduct_sub, smul_dotProduct, dotProduct_smul,
    dotProduct_comm x.get v.get, smul_eq_mul, smul_eq_mul]
  ring

theorem Fits.reflect_reflect {b : ℝ} {v : Vector ℝ n} (h : Fits b v) (x : Vector ℝ n) :
    reflect b v (reflect b v x) = x := by
  rcases h with rfl | h
  · rw [reflect_zero, reflect_zero]
  · apply vector_ext
    intro i
    have hx := congrFun (reflect_real b v x) i
    have hdot : v.get ⬝ᵥ (reflect b v x).get = -(v.get ⬝ᵥ x.get) := by
      rw [reflect_real, dotProduct_sub, dotProduct_smul, smul_eq_mul]
      linear_combination -(v.get ⬝ᵥ x.get) * h
    rw [reflect_real, Pi.sub_apply, Pi.smul_apply, hdot, hx, Pi.sub_apply, Pi.smul_apply,
      smul_eq_mul, smul_eq_mul]
    ring

/-- Squares under the root are added without scaling. -/
theorem hypotenuse_real (a b : ℝ) : hypotenuse a b = √(a ^ 2 + b ^ 2) := by
  have hsq : max |a| |b| ^ 2 + min |a| |b| ^ 2 = a ^ 2 + b ^ 2 := by
    rcases le_total |a| |b| with h | h
    · rw [max_eq_right h, min_eq_left h, sq_abs, sq_abs, add_comm]
    · rw [max_eq_left h, min_eq_right h, sq_abs, sq_abs]
  have hw : 0 ≤ max |a| |b| := le_max_of_le_left (abs_nonneg a)
  have hz : 0 ≤ min |a| |b| := le_min (abs_nonneg a) (abs_nonneg b)
  have hle : min |a| |b| ≤ max |a| |b| := min_le_max
  unfold hypotenuse
  simp only [abs_real, same_real]
  by_cases h0 : min |a| |b| = 0
  · rw [if_pos (Or.inl h0), ← hsq, h0, zero_pow two_ne_zero, add_zero, Real.sqrt_sq hw]
  · rw [if_neg (by simp [h0, Scalar.isFinite])]
    have hpos : 0 < max |a| |b| := lt_of_lt_of_le (lt_of_le_of_ne hz (Ne.symm h0)) hle
    rw [← hsq]
    change max |a| |b| * √(1 + min |a| |b| / max |a| |b| * (min |a| |b| / max |a| |b|)) = _
    rw [← Real.sqrt_sq hpos.le, ← Real.sqrt_mul (sq_nonneg _), Real.sqrt_sq hpos.le]
    congr 1
    field_simp

namespace Reflector

variable {c : Vector ℝ n} {k : Fin n}

theorem tailLength_sq (c : Vector ℝ n) (k : Fin n) :
    tailLength c k ^ 2 = ∑ i, if k < i then c.get i * c.get i else 0 := by
  have hsum : tailLength c k = √(∑ i, if k < i then c.get i * c.get i else 0) := by
    rw [tailLength, norm, length_real, List.map_ofFn, List.sum_ofFn]
    congr 1
    refine Finset.sum_congr rfl fun i _ => ?_
    by_cases h : k < i <;> simp [h]
  rw [hsum, Real.sq_sqrt]
  refine Finset.sum_nonneg fun i _ => ?_
  split_ifs
  · exact mul_self_nonneg _
  · exact le_rfl

theorem tailLength_eq_zero_iff : tailLength c k = 0 ↔ ∀ i, k < i → c.get i = 0 := by
  have hterm : ∀ i ∈ Finset.univ, (0 : ℝ) ≤ if k < i then c.get i * c.get i else 0 := by
    intro i _
    split_ifs
    · exact mul_self_nonneg _
    · exact le_rfl
  rw [← sq_eq_zero_iff, tailLength_sq, Finset.sum_eq_zero_iff_of_nonneg hterm]
  constructor
  · intro h i hi
    simpa [hi] using h i (Finset.mem_univ i)
  · intro h i _
    by_cases hi : k < i
    · simp [hi, h i hi]
    · simp [hi]

theorem ofColumn_real (c : Vector ℝ n) (k : Fin n) : ofColumn c k = direct c k := by
  simp only [ofColumn, abs_real, tiny_real]
  exact if_neg (not_lt.mpr (abs_nonneg _))

theorem pivot_sq (c : Vector ℝ n) (k : Fin n) :
    (direct c k).pivot ^ 2 = c.get k ^ 2 + tailLength c k ^ 2 := by
  have hnonneg : 0 ≤ c.get k ^ 2 + tailLength c k ^ 2 := by positivity
  simp only [direct, hypotenuse_real]
  split_ifs
  · exact Real.sq_sqrt hnonneg
  · rw [neg_sq]
    exact Real.sq_sqrt hnonneg

theorem pivot_mul_le (c : Vector ℝ n) (k : Fin n) : (direct c k).pivot * c.get k ≤ 0 := by
  have hroot : 0 ≤ √(c.get k ^ 2 + tailLength c k ^ 2) := Real.sqrt_nonneg _
  simp only [direct, hypotenuse_real]
  split_ifs with h
  · have hneg : c.get k < 0 := by simpa [Scalar.isNegative] using h
    exact mul_nonpos_of_nonneg_of_nonpos hroot hneg.le
  · have hpos : 0 ≤ c.get k := by simpa [Scalar.isNegative] using h
    exact mul_nonpos_of_nonpos_of_nonneg (neg_nonpos.mpr hroot) hpos

theorem pivot_ne_zero (h : tailLength c k ≠ 0) : (direct c k).pivot ≠ 0 := by
  intro h0
  have hsq := pivot_sq c k
  rw [h0] at hsq
  have hpos : 0 < tailLength c k ^ 2 := by positivity
  nlinarith [sq_nonneg (c.get k)]

theorem sub_pivot_ne_zero (h : tailLength c k ≠ 0) : c.get k - (direct c k).pivot ≠ 0 := by
  intro h0
  have hle := pivot_mul_le c k
  have hpos : 0 < (direct c k).pivot ^ 2 := by
    have := pivot_ne_zero h
    positivity
  rw [sub_eq_zero.mp h0] at hle
  nlinarith

theorem get_vector_eq_zero {i : Fin n} (hi : i < k) : (direct c k).vector.get i = 0 := by
  rw [get_vector_direct, if_pos hi]

theorem get_vector_self (c : Vector ℝ n) (k : Fin n) : (direct c k).vector.get k = 1 := by
  rw [get_vector_direct, if_neg (lt_irrefl k), if_pos rfl]

theorem get_vector_of_lt {i : Fin n} (hi : k < i) :
    (direct c k).vector.get i = c.get i / (c.get k - (direct c k).pivot) := by
  rw [get_vector_direct, if_neg (not_lt.mpr hi.le), if_neg hi.ne']
  ring

/-- An inner product with the vector of a reflector is the leading entry of the other vector plus a
sum over the entries below it. -/
theorem vector_dotProduct (c : Vector ℝ n) (k : Fin n) (x : Fin n → ℝ) :
    (direct c k).vector.get ⬝ᵥ x =
      x k + (∑ i, if k < i then c.get i * x i else 0) / (c.get k - (direct c k).pivot) := by
  have hsplit : ∀ i, (direct c k).vector.get i * x i =
      (if i = k then x i else 0) +
        (if k < i then c.get i * x i else 0) / (c.get k - (direct c k).pivot) := by
    intro i
    rcases lt_trichotomy i k with hi | rfl | hi
    · simp [get_vector_eq_zero hi, hi.ne, not_lt.mpr hi.le]
    · simp [get_vector_self]
    · rw [get_vector_of_lt hi, if_neg hi.ne', if_pos hi]
      ring
  simp only [dotProduct, hsplit, Finset.sum_add_distrib, Finset.sum_ite_eq', Finset.mem_univ,
    if_true, Finset.sum_div]

theorem vector_dotProduct_column (h : tailLength c k ≠ 0) :
    (direct c k).vector.get ⬝ᵥ c.get = -(direct c k).pivot := by
  have hne := sub_pivot_ne_zero h
  rw [vector_dotProduct, ← tailLength_sq]
  field_simp
  linear_combination -pivot_sq c k

theorem fits_direct (h : tailLength c k ≠ 0) : Fits (direct c k).beta (direct c k).vector := by
  right
  have hne := sub_pivot_ne_zero h
  have hr := pivot_ne_zero h
  have hsum : (∑ i, if k < i then c.get i * (direct c k).vector.get i else 0) =
      tailLength c k ^ 2 / (c.get k - (direct c k).pivot) := by
    rw [tailLength_sq, Finset.sum_div]
    refine Finset.sum_congr rfl fun i _ => ?_
    by_cases hi : k < i
    · rw [if_pos hi, if_pos hi, get_vector_of_lt hi]
      ring
    · rw [if_neg hi, if_neg hi, zero_div]
  rw [vector_dotProduct, get_vector_self, hsum]
  change ((direct c k).pivot - c.get k) / (direct c k).pivot * _ = 2
  field_simp
  linear_combination -((direct c k).pivot - c.get k) * pivot_sq c k

/-- The reflection leaves the pivot at the leading position of its column, and zeros below. -/
theorem get_reflect_column (h : tailLength c k ≠ 0) (i : Fin n) :
    (reflect (direct c k).beta (direct c k).vector c).get i =
      if i < k then c.get i else if i = k then (direct c k).pivot else 0 := by
  have hr := pivot_ne_zero h
  have hne := sub_pivot_ne_zero h
  have hcoeff : (direct c k).beta * -(direct c k).pivot = c.get k - (direct c k).pivot := by
    change ((direct c k).pivot - c.get k) / (direct c k).pivot * _ = _
    field_simp
    ring
  rw [reflect_real, vector_dotProduct_column h, hcoeff, Pi.sub_apply, Pi.smul_apply, smul_eq_mul]
  rcases lt_trichotomy i k with hi | rfl | hi
  · rw [get_vector_eq_zero hi, if_pos hi, mul_zero, sub_zero]
  · rw [get_vector_self, if_neg (lt_irrefl i), if_pos rfl]
    ring
  · rw [get_vector_of_lt hi, if_neg (not_lt.mpr hi.le), if_neg hi.ne']
    field_simp
    ring

theorem get_vector_of_depth_le {R : Reflector ℝ n} {i : Fin n} (hi : R.depth ≤ i.val) :
    R.vector.get i = 0 := by
  have h := not_of_extent_le hi
  rwa [not_not, same_real] at h

theorem get_projections_real {R : Reflector ℝ n} (hR : ∀ i < k, R.vector.get i = 0)
    (M : Mat ℝ n n) (j : Fin n) :
    (R.projections M k).get j = R.vector.get ⬝ᵥ (M.column j).get := by
  rw [get_projections, sum_real]
  refine Finset.sum_congr rfl fun i _ => ?_
  rw [Mat.get_column]
  by_cases hi : k ≤ i ∧ i.val < R.depth
  · rw [if_pos hi, mul_comm]
  · rw [if_neg hi]
    rcases not_and_or.mp hi with hk | hd
    · rw [hR i (not_le.mp hk), zero_mul]
    · rw [get_vector_of_depth_le (not_lt.mp hd), zero_mul]

/-- Past the width of a reflection the columns are orthogonal to its vector. -/
theorem get_projections_of_width_le {R : Reflector ℝ n} {M : Mat ℝ n n} {j : Fin n}
    (hj : R.width M k ≤ j.val) : (R.projections M k).get j = 0 := by
  have h := not_of_extent_le hj
  rw [get_projections, sum_real]
  refine Finset.sum_eq_zero fun i _ => ?_
  by_cases hi : k ≤ i ∧ i.val < R.depth
  · have hM : M.entry i j = 0 := by
      by_contra hne
      exact h ⟨i, hi.1, hi.2, by rwa [same_real]⟩
    rw [if_pos hi, hM, zero_mul]
  · rw [if_neg hi]

/-- Every column is reflected, the ones that the loops leave out included. -/
theorem entry_apply_real {R : Reflector ℝ n} (hR : ∀ i < k, R.vector.get i = 0) (M : Mat ℝ n n)
    (i j : Fin n) :
    (R.apply M k).entry i j = (reflect R.beta R.vector (M.column j)).get i := by
  have hget : (reflect R.beta R.vector (M.column j)).get i =
      M.entry i j + R.vector.get i * (-R.beta * (R.projections M k).get j) := by
    rw [get_reflect, dot_real, get_projections_real hR, Mat.get_column]
    ring
  rw [hget, entry_apply]
  by_cases h : k ≤ i ∧ i.val < R.depth ∧ j.val < R.width M k
  · rw [if_pos h]
  · rw [if_neg h]
    rcases not_and_or.mp h with hk | h
    · rw [hR i (not_le.mp hk), zero_mul, add_zero]
    · rcases not_and_or.mp h with hd | hw
      · rw [get_vector_of_depth_le (not_lt.mp hd), zero_mul, add_zero]
      · rw [get_projections_of_width_le (not_lt.mp hw), mul_zero, mul_zero, add_zero]

end Reflector

end QuadraticProgram
