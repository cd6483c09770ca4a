import QuadraticProgram.Proofs.Exact.Dense

/-! # Normals of the entries

The value of an entry is the product of its normal with the point, and multipliers pull along the
normals. So the balance between the gradient and the multipliers is a linear map of the two, up to a
constant, and its work along a direction is that of the curvature and of the multipliers.
-/
namespace QuadraticProgram.Problem
open Matrix

variable {n m : ℕ}

/-- The direction in which the value of an entry grows: a unit vector for a variable, and the row
itself for a row. -/
def normal (P : Problem ℝ EReal n m) (e : Fin (n + m)) : Fin n → ℝ :=
  Fin.addCases (fun i => Pi.single i 1) (fun j => P.constraints.toMatrix j) e

/-- The change of the balance along a direction of the point and of the multipliers. -/
noncomputable def tilt (P : Problem ℝ EReal n m) (d : Fin n → ℝ) (δ : Fin (n + m) → ℝ) :
    Fin n → ℝ :=
  P.hessian.toMatrix *ᵥ d + ∑ e, δ e • P.normal e

variable (P : Problem ℝ EReal n m)

@[simp] theorem normal_castAdd (i : Fin n) : P.normal (i.castAdd m) = Pi.single i 1 := by
  simp [normal]

@[simp] theorem normal_natAdd (j : Fin m) : P.normal (j.natAdd n) = P.constraints.toMatrix j := by
  simp [normal]

theorem get_valuesAt_eq_dotProduct (x : Vector ℝ n) (e : Fin (n + m)) :
    (P.valuesAt x).get e = P.normal e ⬝ᵥ x.get := by
  refine Fin.addCases (fun i => ?_) (fun j => ?_) e
  · rw [get_valuesAt_castAdd, normal_castAdd, single_one_dotProduct]
  · rw [get_valuesAt_natAdd, normal_natAdd]
    rfl

theorem sum_smul_normal_apply (δ : Fin (n + m) → ℝ) (i : Fin n) :
    (∑ e, δ e • P.normal e) i =
      ((fun j : Fin m => δ (j.natAdd n)) ᵥ* P.constraints.toMatrix) i + δ (i.castAdd m) := by
  rw [Finset.sum_apply, Fin.sum_univ_add, add_comm, toMatrix_vecMul_apply]
  congr 1
  · exact Finset.sum_congr rfl fun j _ => by rw [normal_natAdd]; rfl
  · simp [Pi.single_apply]

theorem tilt_apply (d : Fin n → ℝ) (δ : Fin (n + m) → ℝ) (i : Fin n) :
    P.tilt d δ i = (P.hessian.toMatrix *ᵥ d) i +
      ((fun j : Fin m => δ (j.natAdd n)) ᵥ* P.constraints.toMatrix) i + δ (i.castAdd m) := by
  rw [tilt, Pi.add_apply, sum_smul_normal_apply, add_assoc]

theorem tilt_add_smul (d d' : Fin n → ℝ) (δ δ' : Fin (n + m) → ℝ) (t : ℝ) :
    P.tilt (d + t • d') (δ + t • δ') = P.tilt d δ + t • P.tilt d' δ' := by
  simp only [tilt, mulVec_add, mulVec_smul, Pi.add_apply, Pi.smul_apply, smul_eq_mul, add_smul,
    mul_smul, Finset.sum_add_distrib, ← Finset.smul_sum, smul_add]
  exact add_add_add_comm _ _ _ _

theorem tilt_smul (d : Fin n → ℝ) (δ : Fin (n + m) → ℝ) (t : ℝ) :
    P.tilt (t • d) (t • δ) = t • P.tilt d δ := by
  have hzero : P.tilt 0 0 = 0 := by simp [tilt]
  have h := P.tilt_add_smul 0 d 0 δ t
  rwa [hzero, zero_add, zero_add, zero_add] at h

theorem tilt_sub (d d' : Fin n → ℝ) (δ δ' : Fin (n + m) → ℝ) :
    P.tilt (d - d') (δ - δ') = P.tilt d δ - P.tilt d' δ' := by
  have h := P.tilt_add_smul d d' δ δ' (-1)
  rwa [neg_one_smul, neg_one_smul, neg_one_smul, ← sub_eq_add_neg, ← sub_eq_add_neg,
    ← sub_eq_add_neg] at h

theorem dotProduct_tilt (d : Fin n → ℝ) (δ : Fin (n + m) → ℝ) :
    d ⬝ᵥ P.tilt d δ = d ⬝ᵥ P.hessian.toMatrix *ᵥ d + ∑ e, δ e * (P.normal e ⬝ᵥ d) := by
  rw [tilt, dotProduct_add, dotProduct_sum]
  congr 1
  exact Finset.sum_congr rfl fun e _ => by rw [dotProduct_smul, smul_eq_mul, dotProduct_comm]

end QuadraticProgram.Problem
