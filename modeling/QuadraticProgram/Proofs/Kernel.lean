import Mathlib.LinearAlgebra.LinearIndependent.Defs
import Mathlib.LinearAlgebra.Matrix.PosDef
import QuadraticProgram.Proofs.Newton

/-! # The kernel of the Newton system

A direction is neutral when it keeps the held values, the multipliers of the free entries and the
balance. The changed matrix is invertible exactly when only zero is neutral, and for a strictly
convex objective that is so when the normals of the held entries are linearly independent.
-/
namespace QuadraticProgram.Problem
open Matrix

variable {n m : ℕ}

/-- A direction along which nothing that the Newton system looks at changes. -/
structure Neutral (P : Problem ℝ EReal n m) (status : Vector Status (n + m)) (d : Fin n → ℝ)
    (δ : Fin (n + m) → ℝ) : Prop where
  held : ∀ e, (status.get e).IsActive → P.normal e ⬝ᵥ d = 0
  free : ∀ e, status.get e = .inactive → δ e = 0
  balanced : ∀ i, P.tilt d δ i = 0

variable {S : Analysis n m} {P : Problem ℝ EReal n m} {status : Vector Status (n + m)}
variable {d : Fin n → ℝ} {δ : Fin (n + m) → ℝ}

theorem Neutral.multiplier_eq_zero (h : P.Neutral status d δ) (hd : d = 0)
    (hrows : ∀ j : Fin m, δ (j.natAdd n) = 0) : δ = 0 := by
  have hvariables : ∀ i : Fin n, δ (i.castAdd m) = 0 := by
    intro i
    have hbalanced := h.balanced i
    simpa [tilt_apply, hd, toMatrix_vecMul_apply, hrows] using hbalanced
  exact funext fun e => Fin.addCases hvariables hrows e

theorem Neutral.eq_zero_of_isUnit (hH : P.hessian.toMatrix.IsSymm) (hS : S.Covers P)
    (hunit : IsUnit (S.modify (S.assemble P) status).toMatrix) (h : P.Neutral status d δ) :
    d = 0 ∧ δ = 0 := by
  let z : Fin (n + m) → ℝ := Fin.addCases d fun j => δ (j.natAdd n)
  have hpoint : (fun i : Fin n => z (i.castAdd m)) = d := funext fun i => Fin.addCases_left i
  have hrows : ∀ j : Fin m, z (j.natAdd n) = δ (j.natAdd n) := fun j => Fin.addCases_right j
  have hkernel : z ᵥ* (S.modify (S.assemble P) status).toMatrix = 0 := by
    funext e
    by_cases he : status.get e = .inactive
    · revert he
      refine Fin.addCases (fun i hi => ?_) (fun j hj => ?_) e
      · have hbalanced := h.balanced i
        rw [tilt_apply, h.free _ hi, add_zero] at hbalanced
        rw [vecMul_modify_castAdd_of_inactive hH hS hi, hpoint, funext hrows, hbalanced,
          Pi.zero_apply]
      · rw [vecMul_modify_natAdd_of_inactive S P hj, hrows, h.free _ hj, neg_zero, Pi.zero_apply]
    · rw [vecMul_modify_of_isActive hS he, hpoint, h.held e he, Pi.zero_apply]
  have hz : z = 0 :=
    vecMul_injective_of_isUnit hunit (hkernel.trans (zero_vecMul _).symm)
  have hd : d = 0 := by
    rw [← hpoint, hz]
    rfl
  exact ⟨hd, h.multiplier_eq_zero hd fun j => by rw [← hrows, hz, Pi.zero_apply]⟩

theorem eq_of_isUnit (hH : P.hessian.toMatrix.IsSymm) (hS : S.Covers P)
    (hunit : IsUnit (S.modify (S.assemble P) status).toMatrix) {d' : Fin n → ℝ}
    {δ' : Fin (n + m) → ℝ}
    (hheld : ∀ e, (status.get e).IsActive → P.normal e ⬝ᵥ d = P.normal e ⬝ᵥ d')
    (hfree : ∀ e, status.get e = .inactive → δ e = δ' e)
    (hbalanced : ∀ i, P.tilt d δ i = P.tilt d' δ' i) : d = d' ∧ δ = δ' := by
  have hneutral : P.Neutral status (d - d') (δ - δ') := by
    refine ⟨fun e he => ?_, fun e he => ?_, fun i => ?_⟩
    · rw [dotProduct_sub, hheld e he, sub_self]
    · rw [Pi.sub_apply, hfree e he, sub_self]
    · rw [tilt_sub, Pi.sub_apply, hbalanced i, sub_self]
  obtain ⟨hd, hδ⟩ := hneutral.eq_zero_of_isUnit hH hS hunit
  exact ⟨sub_eq_zero.mp hd, sub_eq_zero.mp hδ⟩

theorem isUnit_modify_of_neutral (hH : P.hessian.toMatrix.IsSymm) (hS : S.Covers P)
    (h : ∀ d δ, P.Neutral status d δ → d = 0 ∧ δ = 0) :
    IsUnit (S.modify (S.assemble P) status).toMatrix := by
  let M := (S.modify (S.assemble P) status).toMatrix
  refine vecMul_injective_iff_isUnit.mp ((injective_iff_map_eq_zero M.vecMulLinear).mpr ?_)
  intro z hz
  have hz : ∀ e, (z ᵥ* M) e = 0 := fun e => congrFun hz e
  let d : Fin n → ℝ := fun i => z (i.castAdd m)
  let y : Fin m → ℝ := fun j => z (j.natAdd n)
  let δ : Fin (n + m) → ℝ :=
    Fin.addCases (fun i => -((P.hessian.toMatrix *ᵥ d) i + (y ᵥ* P.constraints.toMatrix) i)) y
  have hrows : (fun j : Fin m => δ (j.natAdd n)) = y := funext fun j => Fin.addCases_right j
  have hvariable : ∀ i : Fin n, δ (i.castAdd m) =
      -((P.hessian.toMatrix *ᵥ d) i + (y ᵥ* P.constraints.toMatrix) i) :=
    fun i => Fin.addCases_left i
  have hneutral : P.Neutral status d δ := by
    refine ⟨fun e he => ?_, fun e he => ?_, fun i => ?_⟩
    · rw [← vecMul_modify_of_isActive hS he]
      exact hz e
    · revert he
      refine Fin.addCases (fun i hi => ?_) (fun j hj => ?_) e
      · rw [hvariable, ← vecMul_modify_castAdd_of_inactive hH hS hi, hz, neg_zero]
      · have hzero := hz (j.natAdd n)
        rw [vecMul_modify_natAdd_of_inactive S P hj] at hzero
        rw [congrFun hrows j]
        exact neg_eq_zero.mp hzero
    · rw [tilt_apply, hrows, hvariable]
      ring
  obtain ⟨hd, hδ⟩ := h d δ hneutral
  funext e
  refine Fin.addCases (fun i => congrFun hd i) (fun j => ?_) e
  exact (congrFun hrows j).symm.trans (congrFun hδ (j.natAdd n))

/-- With positive curvature, a neutral direction moves no point, and independent normals leave no
multipliers that cancel. -/
theorem isUnit_modify_of_linearIndependent (hH : P.hessian.toMatrix.PosDef) (hS : S.Covers P)
    (hindependent : LinearIndepOn ℝ P.normal {e | (status.get e).IsActive}) :
    IsUnit (S.modify (S.assemble P) status).toMatrix := by
  refine isUnit_modify_of_neutral hH.isHermitian hS fun d δ h => ?_
  have hwork : ∀ e, δ e * (P.normal e ⬝ᵥ d) = 0 := by
    intro e
    by_cases he : status.get e = .inactive
    · rw [h.free e he, zero_mul]
    · rw [h.held e he, mul_zero]
  have hcurvature : d ⬝ᵥ P.hessian.toMatrix *ᵥ d = 0 := by
    have hbalanced : P.tilt d δ = 0 := funext h.balanced
    have henergy := P.dotProduct_tilt d δ
    rw [hbalanced, dotProduct_zero, Finset.sum_eq_zero fun e _ => hwork e, add_zero] at henergy
    exact henergy.symm
  have hd : d = 0 := by
    by_contra hne
    exact (hH.dotProduct_mulVec_pos hne).ne' hcurvature
  have hpull : ∑ e with (status.get e).IsActive, δ e • P.normal e = 0 := by
    have hbalanced : P.tilt d δ = 0 := funext h.balanced
    rw [tilt, hd, mulVec_zero, zero_add] at hbalanced
    refine (Finset.sum_subset (Finset.filter_subset _ _) fun e _ he => ?_).trans hbalanced
    have hfree : status.get e = .inactive := by simpa using he
    rw [h.free e hfree, zero_smul]
  have hheld := linearIndepOn_iff'.mp hindependent _ δ (by simp) hpull
  refine ⟨hd, funext fun e => ?_⟩
  by_cases he : status.get e = .inactive
  · exact h.free e he
  · exact hheld e (Finset.mem_filter.mpr ⟨Finset.mem_univ e, he⟩)

/-- Independent normals make no iteration singular. -/
theorem not_isSingular_attempt_of_linearIndependent (hH : P.hessian.toMatrix.PosDef)
    (hS : S.Covers P) {s : State ℝ n m}
    (hindependent : LinearIndepOn ℝ P.normal {e | (s.active.status.get e).IsActive}) :
    ¬ (attempt S P s).IsSingular 0 := fun hsingular =>
  (isSingular_zero_attempt_iff hS s).mp hsingular
    (isUnit_modify_of_linearIndependent hH hS hindependent)

end QuadraticProgram.Problem
