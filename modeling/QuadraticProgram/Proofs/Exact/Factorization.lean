import Mathlib.LinearAlgebra.Matrix.Block
import Mathlib.LinearAlgebra.Matrix.DotProduct
import Mathlib.LinearAlgebra.Matrix.ToLinearEquiv
import QuadraticProgram.Factorization
import QuadraticProgram.Proofs.Pattern.Fill
import QuadraticProgram.Proofs.Pattern.Ordering

/-! # Exact factors and solves

For a matrix inside the analysed pattern the masked factors are those of the matrix, and the column
order is a permutation. So the reflectors take every column of the matrix to a column of the
triangular factor, the solve with the transposed matrix is exact as soon as no pivot is zero, and a
zero pivot occurs exactly when the matrix is not invertible.
-/
namespace QuadraticProgram
open Matrix

variable {n m : ℕ}

section Loops

variable {σ : Type}

theorem sweep_rev_sweep {f : Fin n → σ → σ} (hf : ∀ i s, f i (f i s) = s) (s : σ) {j k : ℕ}
    (hj : j ≤ n) (hk : k ≤ n) (h : j + k = n) :
    sweep (fun i => f i.rev) (sweep f s n le_rfl) k hk = sweep f s j hj := by
  induction k generalizing j with
  | zero =>
    obtain rfl : j = n := by omega
    rfl
  | succ k ih =>
    have hrev : (⟨k, hk⟩ : Fin n).rev = ⟨j, by omega⟩ := Fin.ext (by rw [Fin.val_rev]; dsimp; omega)
    rw [sweep, ih (by omega) _ (by omega : j + 1 + k = n), hrev, sweep, hf]

/-- The last reflection of one loop is the first of the other under an inner product. -/
theorem sweep_dotProduct {f : Fin n → Vector ℝ n → Vector ℝ n}
    (hf : ∀ i (x y : Vector ℝ n), (f i x).get ⬝ᵥ y.get = x.get ⬝ᵥ (f i y).get) (x y : Vector ℝ n)
    {j k : ℕ} (hj : j ≤ n) (hk : k ≤ n) (h : j + k = n) :
    (sweep f x n le_rfl).get ⬝ᵥ y.get =
      (sweep f x j hj).get ⬝ᵥ (sweep (fun i => f i.rev) y k hk).get := by
  induction k generalizing j with
  | zero =>
    obtain rfl : j = n := by omega
    rfl
  | succ k ih =>
    have hrev : (⟨k, hk⟩ : Fin n).rev = ⟨j, by omega⟩ := Fin.ext (by rw [Fin.val_rev]; dsimp; omega)
    rw [ih (by omega) (by omega) (by omega : j + 1 + k = n), sweep, hf, sweep, hrev]

end Loops

section Substitution

theorem sum_castLE {k : ℕ} (hk : k ≤ n) (f : Fin n → ℝ) :
    ∑ j : Fin k, f (j.castLE hk) = ∑ j : Fin n, if j.val < k then f j else 0 := by
  induction k with
  | zero => simp
  | succ k ih =>
    have hsplit : ∀ j : Fin n, (if j.val < k + 1 then f j else 0) =
        (if j.val < k then f j else 0) + if j = ⟨k, hk⟩ then f j else 0 := by
      intro j
      rcases lt_trichotomy j.val k with h | h | h
      · have hne : j ≠ ⟨k, hk⟩ := fun he => by simp [he] at h
        simp [h, Nat.lt_succ_of_lt h, hne]
      · have he : j = ⟨k, hk⟩ := Fin.ext h
        simp [he]
      · have hne : j ≠ ⟨k, hk⟩ := fun he => by simp [he] at h
        simp [hne, not_lt.mpr h.le, not_lt.mpr (Nat.succ_le_of_lt h)]
    rw [Fin.sum_univ_castSucc, Finset.sum_congr rfl fun j _ => hsplit j, Finset.sum_add_distrib,
      Finset.sum_ite_eq' Finset.univ, if_pos (Finset.mem_univ _), ← ih (Nat.le_of_succ_le hk)]
    rfl

theorem foldl_sub {k : ℕ} (f : Fin k → ℝ) (c : ℝ) :
    Fin.foldl k (fun c j => c - f j) c = c - ∑ j, f j := by
  induction k with
  | zero => simp
  | succ k ih =>
    rw [Fin.foldl_succ_last, ih, Fin.sum_univ_castSucc]
    ring

/-- Forward substitution solves the rows whose diagonal entry is not zero. -/
theorem substitute_spec {L : Fin n → Fin n → ℝ} (b : Fin n → ℝ) {k : Fin n} (hk : L k k ≠ 0)
    (htri : ∀ j, k < j → L k j = 0) : ∑ j, L k j * (substitute L b).get j = b k := by
  have hget : (substitute L b).get k =
      (b k - ∑ j : Fin n, if j < k then L k j * (substitute L b).get j else 0) * (1 / L k k) := by
    have hsum := sum_castLE k.isLt.le fun j => L k j * (substitute L b).get j
    simp only [← Fin.lt_def] at hsum
    rw [← hsum]
    nth_rewrite 1 [substitute]
    rw [get_build]
    dsimp only
    rw [foldl_sub]
    congr 2
    exact Finset.sum_congr rfl fun j _ => by rw [get_buildTo_eq_get_build]; rfl
  have hsplit : ∀ j, L k j * (substitute L b).get j =
      (if j < k then L k j * (substitute L b).get j else 0) +
        if j = k then L k j * (substitute L b).get j else 0 := by
    intro j
    rcases lt_trichotomy j k with h | rfl | h
    · simp [h, h.ne]
    · simp
    · simp [htri j h]
  rw [Finset.sum_congr rfl fun j _ => hsplit j, Finset.sum_add_distrib,
    Finset.sum_ite_eq' Finset.univ, if_pos (Finset.mem_univ _), hget]
  field_simp
  ring

theorem substitute_smul (c : ℝ) (L : Fin n → Fin n → ℝ) (b : Fin n → ℝ) :
    substitute L (fun k => c * b k) = c • substitute L b := by
  have hvector : ∀ x : Vector ℝ n, c • x = x.map (c * ·) := fun x =>
    vector_ext fun i => by rw [get_smul, get_map]
  rw [hvector]
  refine build_map (c * ·) fun k before => ?_
  simp only [foldl_sub, get_map, mul_left_comm _ c, ← Finset.mul_sum, ← mul_sub, mul_assoc]

theorem substitute_mul {c : ℝ} (hc : c ≠ 0) (L : Fin n → Fin n → ℝ) (b : Fin n → ℝ) :
    substitute (fun k j => c * L k j) b = c⁻¹ • substitute L b := by
  have hvector : ∀ x : Vector ℝ n, c⁻¹ • x = x.map (c⁻¹ * ·) := fun x =>
    vector_ext fun i => by rw [get_smul, get_map]
  rw [hvector]
  refine build_map (c⁻¹ * ·) fun k before => ?_
  have hterm : ∀ a y : ℝ, c * a * (c⁻¹ * y) = a * y := fun a y => by
    rw [mul_mul_mul_comm, mul_inv_cancel₀ hc, one_mul]
  simp only [get_map, hterm, one_div, mul_inv, mul_left_comm _ c⁻¹]

end Substitution

namespace Factorization

theorem applyQ_smul (F : Factorization ℝ n) (c : ℝ) (x : Vector ℝ n) :
    F.applyQ (c • x) = c • F.applyQ x :=
  sweep_map (c • ·) (fun _ x => reflect_smul c _ _ x) x le_rfl

/-- The solve is linear, whether the matrix is invertible or not. -/
theorem solveTransposed_smul (F : Factorization ℝ n) (c : ℝ) (b : Vector ℝ n) :
    F.solveTransposed (c • b) = c • F.solveTransposed b := by
  unfold solveTransposed
  simp only [get_smul, substitute_smul, applyQ_smul]

/-- The factors are those of a matrix: the reflectors take its columns, in an order that leaves none
out, to the columns of a triangular factor. -/
structure IsExact (F : Factorization ℝ n) (M : Mat ℝ n n) : Prop where
  order_bijective : Function.Bijective F.order.get
  fits : ∀ k, Fits (F.beta.get k) (F.reflector k)
  column : ∀ k, F.applyQt (M.column (F.order.get k)) = F.triangle.column k
  triangular : ∀ i k, k < i → F.triangle.entry i k = 0

end Factorization

section Masks

variable {h : Pattern n n} {a : Pattern m n} {rule : ColumnOrder} {M : Mat ℝ (n + m) (n + m)}

theorem covers_fill_factorize (hM : (analyze h a rule).padded.Covers M) :
    ((analyze h a rule).padded.fill (analyze h a rule).order).Covers
      (Packed.eliminate (M.permuteColumns (analyze h a rule).order)).matrix :=
  hM.eliminateTo (analyze h a rule).order le_rfl

theorem entry_reflectors_factorize (hM : (analyze h a rule).padded.Covers M)
    (i k : Fin (n + m)) :
    ((analyze h a rule).factorize M).reflectors.entry i k =
      if k < i then (Packed.eliminate (M.permuteColumns (analyze h a rule).order)).matrix.entry i k
      else 0 :=
  (covers_fill_factorize hM).entry_restrict_strictLower i k

theorem entry_triangle_factorize (hM : (analyze h a rule).padded.Covers M) (i k : Fin (n + m)) :
    ((analyze h a rule).factorize M).triangle.entry i k =
      if k < i then 0
      else (Packed.eliminate (M.permuteColumns (analyze h a rule).order)).matrix.entry i k :=
  (covers_fill_factorize hM).entry_restrict_upper i k

theorem reflector_factorize (hM : (analyze h a rule).padded.Covers M) (k : Fin (n + m)) :
    ((analyze h a rule).factorize M).reflector k =
      (Packed.eliminate (M.permuteColumns (analyze h a rule).order)).reflector k := by
  apply vector_ext
  intro i
  rw [Factorization.get_reflector, Packed.get_reflector, entry_reflectors_factorize hM]
  by_cases hki : k < i
  · simp only [hki, if_true]
  · simp only [hki, if_false]

/-- In their natural order the columns of a triangular matrix are the factor already. -/
theorem entry_triangle_factorize_of_upper (hM : (analyze h a .natural).padded.Covers M)
    (hupper : ∀ i j, j < i → M.entry i j = 0) (k : Fin (n + m)) :
    ((analyze h a .natural).factorize M).triangle.entry k k = M.entry k k := by
  have horder : ∀ j, (analyze h a .natural).order.get j = j := fun j => get_ofFn id j
  have hpermuted : M.permuteColumns (analyze h a .natural).order = M :=
    Mat.ext_entry fun i j => by rw [Mat.entry_permuteColumns, horder]
  rw [entry_triangle_factorize hM, if_neg (lt_irrefl k), hpermuted, Packed.eliminate,
    Packed.eliminateTo_of_upper hupper]
  rfl

/-- Inside the analysed pattern the masks lose nothing. -/
theorem isExact_factorize (hM : (analyze h a rule).padded.Covers M) :
    ((analyze h a rule).factorize M).IsExact M := by
  let S := analyze h a rule
  let N := M.permuteColumns S.order
  refine ⟨rule.apply_bijective S.padded, fun k => ?_, fun k => ?_, fun i k hki => ?_⟩
  · rw [reflector_factorize hM]
    exact Packed.fits_eliminate N k
  · have hcolumn : M.column (S.order.get k) = N.column k := vector_ext fun i => by simp [N]
    have hsteps : ∀ l : Fin (n + m), l.val < n + m → (S.factorize M).reflectAt l =
        reflect ((Packed.eliminate N).beta.get l) ((Packed.eliminate N).reflector l) := by
      intro l _
      funext x
      rw [Factorization.reflectAt, reflector_factorize hM]
      rfl
    apply vector_ext
    intro i
    rw [Mat.get_column, entry_triangle_factorize hM, ← Packed.get_sweep_reflect_column,
      ← sweep_congr le_rfl hsteps, ← hcolumn]
    rfl
  · rw [entry_triangle_factorize hM, if_pos hki]

end Masks

namespace Factorization.IsExact

variable {F : Factorization ℝ n} {M : Mat ℝ n n}

theorem applyQ_applyQt (h : F.IsExact M) (x : Vector ℝ n) : F.applyQ (F.applyQt x) = x :=
  sweep_rev_sweep (fun k => (h.fits k).reflect_reflect) x (Nat.zero_le n) le_rfl (Nat.zero_add n)

theorem applyQt_applyQ (h : F.IsExact M) (x : Vector ℝ n) : F.applyQt (F.applyQ x) = x := by
  have hinv := sweep_rev_sweep (fun k => (h.fits k.rev).reflect_reflect) x (Nat.zero_le n) le_rfl
    (Nat.zero_add n)
  simp only [Fin.rev_rev] at hinv
  exact hinv

theorem applyQt_dotProduct (F : Factorization ℝ n) (x y : Vector ℝ n) :
    (F.applyQt x).get ⬝ᵥ y.get = x.get ⬝ᵥ (F.applyQ y).get :=
  sweep_dotProduct (fun k => reflect_dotProduct (F.beta.get k) (F.reflector k)) x y (Nat.zero_le n)
    le_rfl (Nat.zero_add n)

theorem vecMul_applyQ (h : F.IsExact M) (w : Vector ℝ n) (k : Fin n) :
    ((F.applyQ w).get ᵥ* M.toMatrix) (F.order.get k) = (w.get ᵥ* F.triangle.toMatrix) k := by
  rw [vecMul_column, vecMul_column, dotProduct_comm, ← applyQt_dotProduct, h.column,
    dotProduct_comm]

/-- The transposed solve is exact as soon as no pivot is zero. -/
theorem vecMul_solveTransposed (h : F.IsExact M) (hpivot : ∀ k, F.triangle.entry k k ≠ 0)
    (b : Vector ℝ n) : (F.solveTransposed b).get ᵥ* M.toMatrix = b.get := by
  funext e
  obtain ⟨k, rfl⟩ := h.order_bijective.2 e
  rw [solveTransposed, h.vecMul_applyQ]
  have hrow := substitute_spec (L := fun k j => F.triangle.entry j k)
    (fun k => b.get (F.order.get k)) (hpivot k) fun j hj => h.triangular j k hj
  rw [← hrow, vecMul_column, dotProduct_comm]
  exact Finset.sum_congr rfl fun j _ => by rw [Mat.get_column]

theorem det_triangle (h : F.IsExact M) :
    F.triangle.toMatrix.det = ∏ k, F.triangle.entry k k :=
  det_of_isUpperTriangular fun i k hki => h.triangular i k hki

theorem isUnit_iff (h : F.IsExact M) :
    IsUnit M.toMatrix ↔ ∀ k, F.triangle.entry k k ≠ 0 := by
  constructor
  · intro hM k hk
    have hdet : F.triangle.toMatrix.det = 0 := by
      rw [h.det_triangle]
      exact Finset.prod_eq_zero (Finset.mem_univ k) hk
    obtain ⟨w, hw, hker⟩ := exists_vecMul_eq_zero_iff.mpr hdet
    have hget : (Vector.ofFn w).get = w := funext (get_ofFn w)
    have hz : (F.applyQ (Vector.ofFn w)).get = 0 := by
      apply vecMul_injective_iff_isUnit.mpr hM
      funext e
      obtain ⟨l, rfl⟩ := h.order_bijective.2 e
      beta_reduce
      rw [h.vecMul_applyQ, hget, hker, zero_vecMul]
      rfl
    have hself : w ⬝ᵥ w = 0 := by
      have hadj := applyQt_dotProduct F (F.applyQ (Vector.ofFn w)) (Vector.ofFn w)
      rwa [h.applyQt_applyQ, hget, hz, zero_dotProduct] at hadj
    exact hw (dotProduct_self_eq_zero.mp hself)
  · intro hpivot
    apply vecMul_surjective_iff_isUnit.mp
    intro b
    refine ⟨_, (h.vecMul_solveTransposed hpivot (Vector.ofFn b)).trans ?_⟩
    exact funext (get_ofFn b)

end Factorization.IsExact

namespace Factorization

variable {F : Factorization ℝ n} {unit : ℝ}

theorem pivotSize_real (F : Factorization ℝ n) (k : Fin n) :
    F.pivotSize k = |F.triangle.entry k k| := rfl

theorem threshold_real (unit : ℝ) (F : Factorization ℝ n) :
    F.threshold unit = n * unit * largest F.pivotSize := rfl

/-- Every exact pivot is finite. -/
theorem isSingular_real_iff : F.IsSingular unit ↔ ∃ k, F.pivotSize k ≤ F.threshold unit :=
  or_iff_right fun ⟨_, hk⟩ => absurd hk (by simp [Scalar.isFinite])

theorem threshold_nonneg (hunit : 0 ≤ unit) (F : Factorization ℝ n) : 0 ≤ F.threshold unit :=
  mul_nonneg (mul_nonneg (Nat.cast_nonneg n) hunit) (largest_nonneg _)

theorem entry_ne_zero_of_not_isSingular (hunit : 0 ≤ unit) (h : ¬ F.IsSingular unit) (k : Fin n) :
    F.triangle.entry k k ≠ 0 := by
  intro hk
  refine h (Or.inr ⟨k, ?_⟩)
  rw [pivotSize_real, hk, abs_zero]
  exact threshold_nonneg hunit F

theorem isSingular_zero_iff : F.IsSingular 0 ↔ ∃ k, F.triangle.entry k k = 0 := by
  have hthreshold : F.threshold 0 = 0 := by
    rw [threshold, mul_zero, zero_mul]
  simp only [isSingular_real_iff, hthreshold, pivotSize_real, abs_nonpos_iff]

end Factorization

end QuadraticProgram
