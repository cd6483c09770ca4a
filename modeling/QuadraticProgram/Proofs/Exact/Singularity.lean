import Mathlib.LinearAlgebra.LinearIndependent.Lemmas
import QuadraticProgram.Proofs.Exact.Solve

/-! # What a zero pivot says

Row `i` of the triangular factor holds the components of the columns along one axis. As long as the
pivots before a step are not zero, the columns before it span the vectors without a component from
its axis on. So the first zero pivot is at the first column that depends on the ones before it. A
matrix that is not invertible has a zero pivot, and the search for the smallest one finds the first.
-/
namespace QuadraticProgram
open Matrix

variable {n m : ℕ}

/-- Vectors that are orthogonal to a direction span only such vectors. -/
theorem dotProduct_eq_zero_of_mem_span {ι : Type} {v : ι → Fin n → ℝ} {T : Set ι}
    {w d : Fin n → ℝ} (hT : ∀ i ∈ T, v i ⬝ᵥ d = 0) (hw : w ∈ Submodule.span ℝ (v '' T)) :
    w ⬝ᵥ d = 0 := by
  induction hw using Submodule.span_induction with
  | mem w hw =>
    obtain ⟨i, hi, rfl⟩ := hw
    exact hT i hi
  | zero => exact zero_dotProduct d
  | add w w' _ _ hw hw' => rw [add_dotProduct, hw, hw', add_zero]
  | smul a w _ hw => rw [smul_dotProduct, hw, smul_zero]

namespace Factorization

variable {F : Factorization ℝ n} {M : Mat ℝ n n}

/-- The axis that the reflectors take to the unit vector of row `i`. -/
noncomputable def axis (F : Factorization ℝ n) (i : Fin n) : Fin n → ℝ :=
  (F.applyQ (Vector.ofFn (Pi.single i 1))).get

def ordered (F : Factorization ℝ n) (M : Mat ℝ n n) (k : Fin n) : Fin n → ℝ :=
  (M.column (F.order.get k)).get

theorem get_applyQt (F : Factorization ℝ n) (x : Vector ℝ n) (i : Fin n) :
    (F.applyQt x).get i = x.get ⬝ᵥ F.axis i := by
  have hunit : (Vector.ofFn (Pi.single i (1 : ℝ))).get = Pi.single i 1 := funext (get_ofFn _)
  rw [axis, ← IsExact.applyQt_dotProduct, hunit, dotProduct_single_one]

namespace IsExact

variable (h : F.IsExact M)
include h

theorem ordered_dotProduct_axis (k i : Fin n) :
    F.ordered M k ⬝ᵥ F.axis i = F.triangle.entry i k := by
  rw [ordered, ← get_applyQt, h.column, Mat.get_column]

/-- The axes leave no direction out. -/
theorem eq_zero_of_dotProduct_axis {x : Fin n → ℝ} (hx : ∀ i, x ⬝ᵥ F.axis i = 0) : x = 0 := by
  have hget : (Vector.ofFn x).get = x := funext (get_ofFn x)
  have himage : (F.applyQt (Vector.ofFn x)).get = 0 := by
    funext i
    rw [get_applyQt, hget, hx, Pi.zero_apply]
  have hself := applyQt_dotProduct F (Vector.ofFn x) (F.applyQt (Vector.ofFn x))
  rw [h.applyQ_applyQt, himage, zero_dotProduct, hget] at hself
  exact dotProduct_self_eq_zero.mp hself.symm

section Leading

variable {k : ℕ} (hk : k ≤ n) (hpivot : ∀ j : Fin n, j.val < k → F.triangle.entry j j ≠ 0)
include hk hpivot

/-- The leading columns span the vectors without a component along the later axes. -/
theorem mem_span_ordered_iff (x : Fin n → ℝ) :
    x ∈ Submodule.span ℝ (F.ordered M '' {j | j.val < k}) ↔
      ∀ i : Fin n, k ≤ i.val → x ⬝ᵥ F.axis i = 0 := by
  constructor
  · intro hx i hi
    refine dotProduct_eq_zero_of_mem_span (fun j hj => ?_) hx
    rw [h.ordered_dotProduct_axis]
    exact h.triangular i j (Fin.lt_def.mpr (lt_of_lt_of_le hj hi))
  · intro hx
    induction k generalizing x with
    | zero =>
      rw [h.eq_zero_of_dotProduct_axis fun i => hx i (Nat.zero_le _)]
      exact Submodule.zero_mem _
    | succ k ih =>
      let j : Fin n := ⟨k, hk⟩
      -- without its component along axis `k` the vector is spanned by the columns before
      let t := x ⬝ᵥ F.axis j / F.triangle.entry j j
      have hrest : x - t • F.ordered M j ∈ Submodule.span ℝ (F.ordered M '' {j | j.val < k}) := by
        refine ih (Nat.le_of_succ_le hk) (fun j' hj' => hpivot j' (Nat.lt_succ_of_lt hj')) _ ?_
        intro i hi
        rw [sub_dotProduct, smul_dotProduct, h.ordered_dotProduct_axis, smul_eq_mul]
        rcases Nat.eq_or_lt_of_le hi with heq | hlt
        · obtain rfl : j = i := Fin.ext heq
          rw [div_mul_cancel₀ _ (hpivot j (Nat.lt_succ_self k)), sub_self]
        · rw [h.triangular i j (Fin.lt_def.mpr hlt), hx i hlt, mul_zero, sub_zero]
      have hmono : F.ordered M '' {j | j.val < k} ⊆ F.ordered M '' {j | j.val < k + 1} :=
        Set.image_mono fun j' hj' => Nat.lt_succ_of_lt hj'
      rw [← sub_add_cancel x (t • F.ordered M j)]
      refine Submodule.add_mem _ (Submodule.span_mono hmono hrest) (Submodule.smul_mem _ t ?_)
      exact Submodule.subset_span (Set.mem_image_of_mem _ (Nat.lt_succ_self k))

theorem linearIndepOn_ordered : LinearIndepOn ℝ (F.ordered M) {j | j.val < k} := by
  induction k with
  | zero => simp
  | succ k ih =>
    let j : Fin n := ⟨k, hk⟩
    have hk' := Nat.le_of_succ_le hk
    have hpivot' : ∀ j : Fin n, j.val < k → F.triangle.entry j j ≠ 0 := fun j' hj' =>
      hpivot j' (Nat.lt_succ_of_lt hj')
    have hinsert : {j : Fin n | j.val < k + 1} = insert j {j : Fin n | j.val < k} := by
      ext j'
      rw [Set.mem_insert_iff, Fin.ext_iff]
      exact Nat.lt_succ_iff_lt_or_eq.trans or_comm
    have hnotMem : j ∉ {j : Fin n | j.val < k} := lt_irrefl k
    rw [hinsert, linearIndepOn_insert hnotMem]
    refine ⟨ih hk' hpivot', fun hspan => hpivot j (Nat.lt_succ_self k) ?_⟩
    rw [← h.ordered_dotProduct_axis]
    exact (h.mem_span_ordered_iff hk' hpivot' _).mp hspan j le_rfl

end Leading

/-- At the first zero pivot the column depends on the ones before it. -/
theorem ordered_mem_span {k : Fin n} (hzero : F.triangle.entry k k = 0)
    (hpivot : ∀ j < k, F.triangle.entry j j ≠ 0) :
    F.ordered M k ∈ Submodule.span ℝ (F.ordered M '' Set.Iio k) := by
  refine (h.mem_span_ordered_iff k.isLt.le hpivot _).mpr fun i hi => ?_
  rw [h.ordered_dotProduct_axis]
  rcases Nat.eq_or_lt_of_le hi with heq | hlt
  · obtain rfl : k = i := Fin.ext heq
    exact hzero
  · exact h.triangular i k hlt

end IsExact

/-- Among several zero pivots the search finds the first. -/
theorem exists_weakestStep?_eq (hzero : ∃ k, F.triangle.entry k k = 0) :
    ∃ k, F.weakestStep? = some k ∧ F.triangle.entry k k = 0 ∧
      ∀ j < k, F.triangle.entry j j ≠ 0 := by
  obtain ⟨l, hl⟩ := hzero
  have hsearch : F.weakestStep? =
      (firstLeast? Scalar.precedes fun k => some (F.pivotSize k)).map Prod.fst := rfl
  have hspec := isFirstLeast_precedes id fun k => some (F.pivotSize k)
  simp only [id_eq] at hspec
  cases hbest : firstLeast? Scalar.precedes fun k => some (F.pivotSize k) with
  | none =>
    rw [hbest] at hspec
    exact absurd (hspec l l.isLt) (Option.some_ne_none _)
  | some best =>
    obtain ⟨k, size⟩ := best
    rw [hbest] at hspec
    obtain ⟨-, hsize, hleast, hfirst⟩ := hspec
    rw [hbest] at hsearch
    obtain rfl : F.pivotSize k = size := Option.some.inj hsize
    have hle : F.pivotSize k ≤ F.pivotSize l := by
      simpa only [precedes_real, decide_eq_false_iff_not, not_lt] using hleast l l.isLt _ rfl
    rw [pivotSize_real, pivotSize_real, hl, abs_zero, abs_nonpos_iff] at hle
    refine ⟨k, hsearch, hle, fun j hj hzero => ?_⟩
    have hlt : F.pivotSize k < F.pivotSize j := by
      simpa only [precedes_real, decide_eq_true_eq] using hfirst j hj _ rfl
    rw [pivotSize_real, pivotSize_real, hle, hzero] at hlt
    exact lt_irrefl _ hlt

end Factorization

/-- A matrix that is not invertible is reported, and the column to blame is the first one, in the
order of the factors, that depends on those before it. What is not reported is invertible, and
without a threshold only singular matrices are reported. -/
theorem weakest_column_depends {h : Pattern n n} {a : Pattern m n} {rule : ColumnOrder} {unit : ℝ}
    (hunit : 0 ≤ unit) {M : Mat ℝ (n + m) (n + m)} (hM : (analyze h a rule).padded.Covers M) :
    let S := analyze h a rule
    let F := S.factorize M
    let column := fun k => (M.column (S.order.get k)).get
    (¬ IsUnit M.toMatrix → F.IsSingular unit ∧
      ∃ k, F.weakestColumn? = some (S.order.get k) ∧
        LinearIndepOn ℝ column (Set.Iio k) ∧
        column k ∈ Submodule.span ℝ (column '' Set.Iio k)) ∧
    (¬ F.IsSingular unit → IsUnit M.toMatrix) ∧
    (F.IsSingular 0 ↔ ¬ IsUnit M.toMatrix) := by
  intro S F column
  have hF : F.IsExact M := isExact_factorize hM
  have hregular : ¬ F.IsSingular unit → IsUnit M.toMatrix := fun hregular =>
    hF.isUnit_iff.mpr (Factorization.entry_ne_zero_of_not_isSingular hunit hregular)
  refine ⟨fun hsingular => ⟨not_not.mp fun hregular' => hsingular (hregular hregular'), ?_⟩,
    hregular, ?_⟩
  · have hzero : ∃ k, F.triangle.entry k k = 0 := by
      by_contra hpivot
      exact hsingular (hF.isUnit_iff.mpr fun k hk => hpivot ⟨k, hk⟩)
    obtain ⟨k, hweakest, hk, hpivot⟩ := Factorization.exists_weakestStep?_eq hzero
    refine ⟨k, congrArg (Option.map F.order.get) hweakest, ?_, hF.ordered_mem_span hk hpivot⟩
    exact hF.linearIndepOn_ordered k.isLt.le hpivot
  · rw [Factorization.isSingular_zero_iff, hF.isUnit_iff]
    push Not
    exact Iff.rfl

noncomputable def twins : Mat ℝ (1 + 1) (1 + 1) := Mat.ofFn fun _ _ => 1

theorem not_isUnit_twins : ¬ IsUnit twins.toMatrix := by
  have hdet : twins.toMatrix.det = 0 := by
    rw [det_fin_two]
    simp [twins]
  rw [isUnit_iff_isUnit_det, hdet]
  exact not_isUnit_zero

theorem weakest_column_depends_twins :
    let S := analyze (Mat.ofFn fun _ _ => true) (Mat.ofFn fun _ _ => true) .natural
    let F := S.factorize twins
    (0 : ℝ) ≤ 1 / 2 ^ 52 ∧ S.padded.Covers twins ∧ ¬ IsUnit twins.toMatrix ∧
      F.IsSingular (1 / 2 ^ 52) ∧ F.weakestColumn? = some 1 := by
  intro S F
  have hunit : (0 : ℝ) ≤ 1 / 2 ^ 52 := by positivity
  have hS : S.padded.Covers twins := covers_of_marked twins _
  obtain ⟨hsingular, k, hweakest, -, hspan⟩ :=
    (weakest_column_depends hunit hS).1 not_isUnit_twins
  refine ⟨hunit, hS, not_isUnit_twins, hsingular, hweakest.trans ?_⟩
  -- nothing precedes the first column, and it is not zero
  have hk : k ≠ 0 := by
    rintro rfl
    have hnone : Set.Iio (0 : Fin (1 + 1)) = ∅ :=
      Set.eq_empty_of_forall_notMem fun j => Fin.not_lt_zero j
    rw [hnone, Set.image_empty, Submodule.span_empty, Submodule.mem_bot] at hspan
    have hentry := congrFun hspan 0
    beta_reduce at hentry
    rw [Mat.get_column, twins, Mat.entry_ofFn] at hentry
    exact one_ne_zero hentry
  have horder : S.order.get k = k := get_ofFn id k
  rw [horder]
  fin_cases k
  · exact absurd rfl hk
  · rfl

end QuadraticProgram
