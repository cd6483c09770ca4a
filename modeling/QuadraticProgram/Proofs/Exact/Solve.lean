import QuadraticProgram.Proofs.Exact.Factorization

/-! # Both solves

The reflectors together are an orthogonal map, which takes the columns of the triangular factor back
to those of the matrix. What it leaves of either system is triangular, and the order loses no
unknown. So each solve gives the only solution of its system as soon as no pivot is zero.
-/
namespace QuadraticProgram
open Matrix

variable {n m : ℕ}

theorem norm_real (x : Vector ℝ n) : norm x.get = √(x.get ⬝ᵥ x.get) := by
  rw [norm, length_real, List.map_ofFn, List.sum_ofFn]
  rfl

namespace Mat

variable {M : Mat ℝ n n}

theorem vecMul_injective (hM : IsUnit M.toMatrix) : Function.Injective M.vecMul := by
  intro z z' h
  refine vector_ext (congrFun (vecMul_injective_of_isUnit hM ?_))
  beta_reduce
  rw [← vecMul_real, ← vecMul_real, h]

theorem mulVec_injective (hM : IsUnit M.toMatrix) : Function.Injective M.mulVec := by
  intro z z' h
  refine vector_ext (congrFun (mulVec_injective_of_isUnit hM ?_))
  rw [← mulVec_real, ← mulVec_real, h]

end Mat

section Scatter

theorem get_foldl_set {τ : Type} {k : ℕ} {position : Fin k → Fin n}
    (h : Function.Injective position) (w : Fin k → τ) (start : Vector τ n) (i : Fin k) :
    (Fin.foldl k (fun z j => z.set (position j) (w j)) start).get (position i) = w i := by
  induction k with
  | zero => exact i.elim0
  | succ k ih =>
    rw [Fin.foldl_succ_last, get_set]
    cases i using Fin.lastCases with
    | last => exact if_pos rfl
    | cast i =>
      rw [if_neg fun heq => (Fin.castSucc_lt_last i).ne (h heq)]
      exact ih (h.comp (Fin.castSucc_injective k)) (fun j => w j.castSucc) i

/-- An order that takes no position twice puts every entry where it belongs. -/
theorem get_scatter {order : Vector (Fin n) n} (h : Function.Injective order.get)
    (w : Vector ℝ n) (k : Fin n) : (scatter order w).get (order.get k) = w.get k :=
  get_foldl_set h w.get _ k

theorem scatter_smul (order : Vector (Fin n) n) (c : ℝ) (w : Vector ℝ n) :
    scatter order (c • w) = c • scatter order w := by
  have hstart : Vector.ofFn (fun _ : Fin n => (0 : ℝ)) = c • Vector.ofFn fun _ => 0 :=
    vector_ext fun i => by rw [get_smul, get_ofFn, mul_zero]
  unfold scatter
  rw [Fin.foldl_eq_finRange_foldl, Fin.foldl_eq_finRange_foldl]
  nth_rewrite 1 [hstart]
  refine List.foldl_hom (fun z : Vector ℝ n => c • z) fun z k => vector_ext fun i => ?_
  rw [get_set, get_smul, get_smul, get_smul, get_set, mul_ite]

end Scatter

namespace Factorization

variable {F : Factorization ℝ n}

/-- Backward substitution solves a triangular system without zero pivots. -/
theorem mulVec_solveTriangle (htriangular : ∀ i k, k < i → F.triangle.entry i k = 0)
    (hpivot : ∀ k, F.triangle.entry k k ≠ 0) (c : Vector ℝ n) :
    F.triangle.toMatrix *ᵥ (F.solveTriangle c).get = c.get := by
  funext k
  have hrow := substitute_spec (L := fun k j => F.triangle.entry k.rev j.rev)
    (fun k => c.get k.rev) (k := k.rev) (hpivot _) fun j hj =>
      htriangular _ _ (Fin.rev_lt_rev.mpr hj)
  simp only [Fin.rev_rev] at hrow
  rw [← hrow, toMatrix_mulVec_apply, ← Equiv.sum_comp Fin.revPerm]
  refine Finset.sum_congr rfl fun j _ => ?_
  rw [Fin.revPerm_apply, solveTriangle, get_ofFn, Fin.rev_rev]

namespace IsExact

variable {M : Mat ℝ n n}

theorem applyQ_column (h : F.IsExact M) (k : Fin n) :
    F.applyQ (F.triangle.column k) = M.column (F.order.get k) := by
  rw [← h.column, h.applyQ_applyQt]

/-- The triangular factor has the inner products of the columns. -/
theorem triangle_column_dotProduct (h : F.IsExact M) (j k : Fin n) :
    (F.triangle.column j).get ⬝ᵥ (F.triangle.column k).get =
      (M.column (F.order.get j)).get ⬝ᵥ (M.column (F.order.get k)).get := by
  rw [← h.column, ← h.column, applyQt_dotProduct, h.applyQ_applyQt]

theorem norm_applyQ (h : F.IsExact M) (x : Vector ℝ n) : norm (F.applyQ x).get = norm x.get := by
  rw [norm_real, norm_real, ← applyQt_dotProduct, h.applyQt_applyQ]

theorem norm_applyQt (h : F.IsExact M) (x : Vector ℝ n) : norm (F.applyQt x).get = norm x.get := by
  rw [norm_real, norm_real, applyQt_dotProduct, h.applyQ_applyQt]

/-- Every product with the matrix is one with the triangular factor, seen through the
reflectors. -/
theorem applyQ_dotProduct_mulVec (h : F.IsExact M) (u z w : Vector ℝ n)
    (hz : ∀ k, z.get (F.order.get k) = w.get k) :
    (F.applyQ u).get ⬝ᵥ M.toMatrix *ᵥ z.get = u.get ⬝ᵥ F.triangle.toMatrix *ᵥ w.get := by
  rw [dotProduct_mulVec, dotProduct_mulVec, dotProduct, ← h.order_bijective.sum_comp]
  exact Finset.sum_congr rfl fun k _ => by rw [h.vecMul_applyQ, hz]

/-- The solve is exact as soon as no pivot is zero. -/
theorem mulVec_solve (h : F.IsExact M) (hpivot : ∀ k, F.triangle.entry k k ≠ 0) (b : Vector ℝ n) :
    M.toMatrix *ᵥ (F.solve b).get = b.get := by
  apply dotProduct_eq
  intro u
  -- the reflectors reach every vector, and under them the system is the triangular one
  have hu : u = (F.applyQ (F.applyQt (Vector.ofFn u))).get := by
    rw [h.applyQ_applyQt]
    exact (funext (get_ofFn u)).symm
  have hscatter := get_scatter h.order_bijective.1 (F.solveTriangle (F.applyQt b))
  rw [dotProduct_comm, dotProduct_comm b.get, hu, solve,
    h.applyQ_dotProduct_mulVec _ _ _ hscatter, mulVec_solveTriangle h.triangular hpivot,
    dotProduct_comm, applyQt_dotProduct, dotProduct_comm]

theorem vecMul_eq_iff (h : F.IsExact M) (hpivot : ∀ k, F.triangle.entry k k ≠ 0)
    (b z : Vector ℝ n) : M.vecMul z = b ↔ z = F.solveTransposed b := by
  have hsolve : M.vecMul (F.solveTransposed b) = b :=
    vector_ext (congrFun ((vecMul_real M _).trans (h.vecMul_solveTransposed hpivot b)))
  nth_rewrite 1 [← hsolve]
  exact (Mat.vecMul_injective (h.isUnit_iff.mpr hpivot)).eq_iff

theorem mulVec_eq_iff (h : F.IsExact M) (hpivot : ∀ k, F.triangle.entry k k ≠ 0)
    (b z : Vector ℝ n) : M.mulVec z = b ↔ z = F.solve b := by
  have hsolve : M.mulVec (F.solve b) = b :=
    vector_ext (congrFun ((mulVec_real M _).trans (h.mulVec_solve hpivot b)))
  nth_rewrite 1 [← hsolve]
  exact (Mat.mulVec_injective (h.isUnit_iff.mpr hpivot)).eq_iff

end IsExact

end Factorization

/-- For a matrix inside the analysed pattern the factors multiply to the matrix with its columns in
order, the reflectors together are invertible and keep every length, and without a zero pivot each
solve gives the only solution of its system. -/
theorem factors_and_solves_exact {h : Pattern n n} {a : Pattern m n} {rule : ColumnOrder}
    {M : Mat ℝ (n + m) (n + m)} (hM : (analyze h a rule).padded.Covers M) :
    let S := analyze h a rule
    let F := S.factorize M
    (∀ k, F.applyQ (F.triangle.column k) = M.column (S.order.get k)) ∧
      (∀ x, F.applyQ (F.applyQt x) = x ∧ F.applyQt (F.applyQ x) = x) ∧
      (∀ x, norm (F.applyQ x).get = norm x.get ∧ norm (F.applyQt x).get = norm x.get) ∧
      ((∀ k, F.triangle.entry k k ≠ 0) → ∀ b z,
        (M.vecMul z = b ↔ z = F.solveTransposed b) ∧ (M.mulVec z = b ↔ z = F.solve b)) := by
  intro S F
  have hF : F.IsExact M := isExact_factorize hM
  exact ⟨hF.applyQ_column, fun x => ⟨hF.applyQ_applyQt x, hF.applyQt_applyQ x⟩,
    fun x => ⟨hF.norm_applyQ x, hF.norm_applyQt x⟩,
    fun hpivot b z => ⟨hF.vecMul_eq_iff hpivot b z, hF.mulVec_eq_iff hpivot b z⟩⟩

noncomputable def saddle : Mat ℝ (1 + 1) (1 + 1) :=
  Mat.ofFn fun i j => if i.val = 1 ∧ j.val = 1 then 0 else 1

theorem isUnit_saddle : IsUnit saddle.toMatrix := by
  have hdet : saddle.toMatrix.det = -1 := by
    rw [det_fin_two]
    simp [saddle]
  rw [isUnit_iff_isUnit_det, hdet]
  exact isUnit_one.neg

/-- With one variable and one row, marking everything covers every system. -/
theorem covers_of_marked (M : Mat ℝ (1 + 1) (1 + 1)) (rule : ColumnOrder) :
    (analyze (Mat.ofFn fun _ _ => true) (Mat.ofFn fun _ _ => true) rule).padded.Covers M := by
  intro i j _
  change (Pattern.kkt _ _).addDiagonal.entry i j = true
  rw [Pattern.entry_addDiagonal, Bool.or_eq_true, beq_iff_eq]
  fin_cases i <;> fin_cases j <;> decide

theorem factors_and_solves_exact_saddle :
    let S := analyze (Mat.ofFn fun _ _ => true) (Mat.ofFn fun _ _ => true) .minimumDegree
    let F := S.factorize saddle
    S.padded.Covers saddle ∧ (∀ k, F.triangle.entry k k ≠ 0) ∧
      F.applyQ (F.triangle.column 1) = saddle.column (S.order.get 1) ∧
      F.solveTransposed #v[1, 0] = #v[0, 1] ∧ F.solve #v[1, 0] = #v[0, 1] := by
  intro S F
  have hS : S.padded.Covers saddle := covers_of_marked saddle _
  have hpivot : ∀ k, F.triangle.entry k k ≠ 0 :=
    (isExact_factorize hS).isUnit_iff.mp isUnit_saddle
  obtain ⟨hcolumns, -, -, hsolves⟩ := factors_and_solves_exact hS
  obtain ⟨htransposed, hplain⟩ := hsolves hpivot #v[1, 0] #v[0, 1]
  refine ⟨hS, hpivot, hcolumns 1, (htransposed.mp ?_).symm, (hplain.mp ?_).symm⟩
  · apply vector_ext
    intro i
    rw [Mat.get_vecMul, sum_real, Fin.sum_univ_two]
    fin_cases i <;> simp [saddle, get_eq_getElem]
  · apply vector_ext
    intro i
    rw [Mat.get_mulVec, sum_real, Fin.sum_univ_two]
    fin_cases i <;> simp [saddle, get_eq_getElem]

end QuadraticProgram
