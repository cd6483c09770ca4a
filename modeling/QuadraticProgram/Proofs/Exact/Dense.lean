import Mathlib.Algebra.BigOperators.Fin
import Mathlib.Data.Matrix.Mul
import QuadraticProgram.Proofs.Comparison
import QuadraticProgram.Problem.Basic

/-! # Exact sums and products

In the exact reading the loops over terms are finite sums, and the products of stored matrices are
those of the matrices they stand for. Everything about values, gradients and objectives below is
linear algebra on `Mat.toMatrix` and on the functions `Vector.get`.
-/
namespace QuadraticProgram
open Matrix

variable {m n : ℕ}

def Mat.toMatrix {τ : Type} (M : Mat τ m n) : Matrix (Fin m) (Fin n) τ := Matrix.of M.entry

@[simp] theorem Mat.toMatrix_apply {τ : Type} (M : Mat τ m n) (i : Fin m) (j : Fin n) :
    M.toMatrix i j = M.entry i j := rfl

@[simp] theorem get_add (x y : Vector ℝ n) (i : Fin n) : (x + y).get i = x.get i + y.get i := by
  rw [get_eq_getElem, get_eq_getElem, get_eq_getElem, Vector.getElem_add]

@[simp] theorem get_neg (x : Vector ℝ n) (i : Fin n) : (-x).get i = -x.get i := by
  rw [get_eq_getElem, get_eq_getElem, Vector.getElem_neg]

@[simp] theorem get_smul (c : ℝ) (x : Vector ℝ n) (i : Fin n) : (c • x).get i = c * x.get i := by
  rw [get_eq_getElem, get_eq_getElem, Vector.getElem_smul, smul_eq_mul]

theorem get_smul_eq (c : ℝ) (x : Vector ℝ n) : (c • x).get = c • x.get :=
  funext fun i => get_smul c x i

theorem neg_eq_smul (x : Vector ℝ n) : -x = (-1 : ℝ) • x :=
  vector_ext fun i => by rw [get_neg, get_smul, neg_one_mul]

theorem get_neg_eq_smul (x : Vector ℝ n) : (-x).get = (-1 : ℝ) • x.get := by
  rw [neg_eq_smul, get_smul_eq]

theorem onVariables_neg (x : Vector ℝ (n + m)) : onVariables (-x) = -onVariables x :=
  vector_ext fun i => by rw [get_neg, get_onVariables, get_onVariables, get_neg]

theorem onRows_neg (x : Vector ℝ (n + m)) : onRows (-x) = -onRows x :=
  vector_ext fun j => by rw [get_neg, get_onRows, get_onRows, get_neg]

theorem sum_real (f : Fin n → ℝ) : sum f = ∑ i, f i := by
  induction n with
  | zero => simp [sum_zero]
  | succ n ih => rw [sum_succ, ih, Fin.sum_univ_castSucc]

theorem dot_real (u v : Vector ℝ n) : dot u v = u.get ⬝ᵥ v.get := sum_real _

theorem mulVec_real (M : Mat ℝ m n) (v : Vector ℝ n) :
    (M.mulVec v).get = M.toMatrix *ᵥ v.get := by
  funext i
  rw [Mat.get_mulVec, sum_real]
  rfl

theorem vecMul_real (M : Mat ℝ m n) (v : Vector ℝ m) :
    (M.vecMul v).get = v.get ᵥ* M.toMatrix := by
  funext j
  rw [Mat.get_vecMul, sum_real]
  exact Finset.sum_congr rfl fun i _ => mul_comm _ _

theorem toMatrix_mulVec_apply (M : Mat ℝ m n) (x : Fin n → ℝ) (i : Fin m) :
    (M.toMatrix *ᵥ x) i = ∑ j, M.entry i j * x j := rfl

theorem toMatrix_vecMul_apply (M : Mat ℝ m n) (x : Fin m → ℝ) (j : Fin n) :
    (x ᵥ* M.toMatrix) j = ∑ i, x i * M.entry i j := rfl

theorem vecMul_column (M : Mat ℝ m n) (x : Fin m → ℝ) (j : Fin n) :
    (x ᵥ* M.toMatrix) j = x ⬝ᵥ (M.column j).get :=
  congrArg (x ⬝ᵥ ·) (funext fun i => (M.get_column j i).symm)

theorem largest_nonneg (f : Fin n → ℝ) : 0 ≤ largest f :=
  (largest_le_iff.mp le_rfl).1

theorem le_largest (f : Fin n → ℝ) (i : Fin n) : f i ≤ largest f :=
  (largest_le_iff.mp le_rfl).2 i

theorem largest_mul {c : ℝ} (hc : 0 ≤ c) (f : Fin n → ℝ) :
    largest (fun i => c * f i) = c * largest f := by
  induction n with
  | zero => rw [largest_zero, largest_zero, mul_zero]
  | succ n ih => rw [largest_succ, largest_succ, ih, mul_max_of_nonneg _ _ hc]

namespace Problem

variable (P : Problem ℝ EReal n m)

theorem objective_real (x : Vector ℝ n) :
    P.objective x =
      1 / 2 * (x.get ⬝ᵥ P.hessian.toMatrix *ᵥ x.get) + P.linear.get ⬝ᵥ x.get := by
  rw [objective, half_real, dot_real, dot_real, mulVec_real]

theorem gradient_real (x : Vector ℝ n) (y : Vector ℝ m) :
    (P.gradient x y).get =
      P.hessian.toMatrix *ᵥ x.get + P.linear.get + y.get ᵥ* P.constraints.toMatrix := by
  funext i
  rw [get_gradient, mulVec_real, vecMul_real]
  rfl

@[simp] theorem get_valuesAt_castAdd (x : Vector ℝ n) (i : Fin n) :
    (P.valuesAt x).get (i.castAdd m) = x.get i := by
  simp [valuesAt]

@[simp] theorem get_valuesAt_natAdd (x : Vector ℝ n) (j : Fin m) :
    (P.valuesAt x).get (j.natAdd n) = (P.constraints.toMatrix *ᵥ x.get) j := by
  rw [valuesAt, get_join_natAdd, mulVec_real]

/-- Values move along a step as far as the point does. -/
theorem get_valuesAt_add_smul {x d y : Vector ℝ n} (t : ℝ)
    (hy : ∀ i, y.get i = x.get i + t * d.get i) (e : Fin (n + m)) :
    (P.valuesAt y).get e = (P.valuesAt x).get e + t * (P.valuesAt d).get e := by
  have hvec : y.get = x.get + t • d.get := funext hy
  refine Fin.addCases (fun i => ?_) (fun j => ?_) e
  · simpa using hy i
  · simp only [get_valuesAt_natAdd, hvec, mulVec_add, mulVec_smul, Pi.add_apply, Pi.smul_apply,
      smul_eq_mul]

end Problem

end QuadraticProgram
