import QuadraticProgram.Proofs.Exact.Solve

/-! # Uniformly scaled matrices

The reflector of a column depends on its direction only. So a matrix multiplied by a positive
number is eliminated by the same reflectors, and its triangular factor is multiplied by that number.
A pivot test relative to the largest pivot judges both matrices alike, and each solve divides by the
number.
-/
namespace QuadraticProgram
open Matrix

variable {n m : ℕ} {c : ℝ} (hc : 0 < c)

include hc in
theorem mul_neg_iff_of_pos (l : ℝ) : c * l < 0 ↔ l < 0 := smul_neg_iff_of_pos_left hc

namespace Reflector

variable {x : Vector ℝ n} {k : Fin n}
include hc

theorem tailLength_smul_eq_zero_iff : tailLength (c • x) k = 0 ↔ tailLength x k = 0 := by
  simp only [tailLength_eq_zero_iff, get_smul, mul_eq_zero, hc.ne', false_or]

theorem pivot_smul (x : Vector ℝ n) (k : Fin n) :
    (direct (c • x) k).pivot = c * (direct x k).pivot := by
  have htail : tailLength (c • x) k ^ 2 = c ^ 2 * tailLength x k ^ 2 := by
    rw [tailLength_sq, tailLength_sq, Finset.mul_sum]
    refine Finset.sum_congr rfl fun i _ => ?_
    rw [get_smul]
    split_ifs
    · ring
    · ring
  have hlength : hypotenuse ((c • x).get k) (tailLength (c • x) k) =
      c * hypotenuse (x.get k) (tailLength x k) := by
    rw [hypotenuse_real, hypotenuse_real, htail, get_smul, mul_pow, ← mul_add,
      Real.sqrt_mul (sq_nonneg c), Real.sqrt_sq hc.le]
  have hsign : Scalar.isNegative ((c • x).get k) = Scalar.isNegative (x.get k) := by
    rw [get_smul]
    exact decide_eq_decide.mpr (mul_neg_iff_of_pos hc _)
  simp only [direct, hlength, hsign]
  split_ifs
  · rfl
  · exact (mul_neg c _).symm

theorem beta_smul (x : Vector ℝ n) (k : Fin n) : (direct (c • x) k).beta = (direct x k).beta := by
  change ((direct (c • x) k).pivot - (c • x).get k) / (direct (c • x) k).pivot = _
  rw [pivot_smul hc, get_smul, ← mul_sub, mul_div_mul_left _ _ hc.ne']
  rfl

theorem vector_smul (x : Vector ℝ n) (k : Fin n) :
    (direct (c • x) k).vector = (direct x k).vector := by
  apply vector_ext
  intro i
  rcases lt_trichotomy i k with hi | rfl | hi
  · rw [get_vector_eq_zero hi, get_vector_eq_zero hi]
  · rw [get_vector_self, get_vector_self]
  · rw [get_vector_of_lt hi, get_vector_of_lt hi, pivot_smul hc, get_smul, get_smul, ← mul_sub,
      mul_div_mul_left _ _ hc.ne']

end Reflector

namespace Packed

/-- Two eliminations after `k` steps: the second matrix reached is the first one multiplied by `c`,
and the reflectors so far are the same. -/
structure Scaled (c : ℝ) (k : ℕ) (s t : Packed ℝ n) : Prop where
  reached : ∀ j, t.reached k j = c • s.reached k j
  beta : ∀ l, t.beta.get l = s.beta.get l
  reflector : ∀ l : Fin n, l.val < k → t.reflector l = s.reflector l

section Step

variable {s t : Packed ℝ n} {k : Fin n}
include hc

/-- Both columns are reflected in the same way, or both are left alone. -/
theorem Scaled.reflector_step (hst : Scaled c k s t) :
    (step k t).beta.get k = (step k s).beta.get k ∧
      (step k t).reflector k = (step k s).reflector k := by
  have hcolumn : t.matrix.column k = c • s.matrix.column k := by
    rw [← reached_of_le le_rfl, ← reached_of_le le_rfl]
    exact hst.reached k
  by_cases htail : Reflector.tailLength (s.matrix.column k) k = 0
  · have htail' : Reflector.tailLength (t.matrix.column k) k = 0 := by
      rwa [hcolumn, Reflector.tailLength_smul_eq_zero_iff hc]
    rw [step_of_tailLength_eq_zero htail, step_of_tailLength_eq_zero htail']
    refine ⟨hst.beta k, vector_ext fun i => ?_⟩
    rw [get_reflector, get_reflector]
    by_cases hi : k < i
    · have hzero := Reflector.tailLength_eq_zero_iff.mp htail i hi
      have hzero' := Reflector.tailLength_eq_zero_iff.mp htail' i hi
      rw [Mat.get_column] at hzero hzero'
      rw [hzero, hzero']
    · rw [if_neg hi, if_neg hi]
  · have htail' : Reflector.tailLength (t.matrix.column k) k ≠ 0 := by
      rwa [hcolumn, Ne, Reflector.tailLength_smul_eq_zero_iff hc]
    rw [get_beta_step_self htail, get_beta_step_self htail', reflector_step_self htail,
      reflector_step_self htail', hcolumn, Reflector.beta_smul hc, Reflector.vector_smul hc]
    exact ⟨rfl, rfl⟩

theorem Scaled.step (hst : Scaled c k s t) (hs : s.beta.get k = 0) :
    Scaled c (k + 1) (Packed.step k s) (Packed.step k t) := by
  obtain ⟨hbeta, hreflector⟩ := hst.reflector_step hc
  refine ⟨fun j => ?_, fun l => ?_, fun l hl => ?_⟩
  · rw [reached_step hs, reached_step ((hst.beta k).trans hs), hbeta, hreflector, hst.reached,
      reflect_smul]
  · by_cases hl : l = k
    · rw [hl, hbeta]
    · rw [get_beta_step_of_ne hl, get_beta_step_of_ne hl, hst.beta]
  · rcases Nat.lt_succ_iff_lt_or_eq.mp hl with hlt | heq
    · rw [reflector_step_of_lt hlt, reflector_step_of_lt hlt, hst.reflector l hlt]
    · rw [Fin.ext heq, hreflector]

end Step

variable {M N : Mat ℝ n n} (hN : ∀ i j, N.entry i j = c * M.entry i j)
include hc hN

theorem scaled_eliminateTo {k : ℕ} (hk : k ≤ n) :
    Scaled c k (eliminateTo M k hk) (eliminateTo N k hk) := by
  induction k with
  | zero =>
    refine ⟨fun j => vector_ext fun i => ?_, fun _ => rfl,
      fun l hl => absurd hl (Nat.not_lt_zero _)⟩
    rw [get_smul, get_reached, get_reached]
    simp only [Nat.not_lt_zero, false_and, if_false]
    exact hN i j
  | succ k ih =>
    have hk' := Nat.le_of_succ_le hk
    exact (ih hk').step (k := ⟨k, hk⟩) hc (get_beta_eliminateTo_of_le M hk' le_rfl)

/-- Below the diagonal the packed factors are the same. -/
theorem entry_eliminate_of_lt {i j : Fin n} (hji : j < i) :
    (eliminate N).matrix.entry i j = (eliminate M).matrix.entry i j := by
  have hreflector := (scaled_eliminateTo hc hN le_rfl).reflector j j.isLt
  have h := congrArg (fun v : Vector ℝ n => v.get i) hreflector
  simpa [hji, hji.ne', eliminate] using h

/-- On and above the diagonal the packed factors are multiplied. -/
theorem entry_eliminate_of_le {i j : Fin n} (hij : i ≤ j) :
    (eliminate N).matrix.entry i j = c * (eliminate M).matrix.entry i j := by
  have hreached := (scaled_eliminateTo hc hN le_rfl).reached j
  have h := congrArg (fun v : Vector ℝ n => v.get i) hreached
  simpa [not_lt.mpr hij, eliminate] using h

end Packed

namespace Factorization

noncomputable def scale (c : ℝ) (F : Factorization ℝ n) : Factorization ℝ n :=
  { F with triangle := F.triangle.map (c * ·) }

variable (F : Factorization ℝ n) {unit : ℝ}

include hc

theorem pivotSize_scale (k : Fin n) : (F.scale c).pivotSize k = c * F.pivotSize k := by
  rw [pivotSize_real, pivotSize_real, scale, Mat.entry_map, abs_mul, abs_of_pos hc]

/-- A test relative to the largest pivot does not see the scale. -/
theorem isSingular_scale_iff : (F.scale c).IsSingular unit ↔ F.IsSingular unit := by
  have hthreshold : (F.scale c).threshold unit = c * F.threshold unit := by
    rw [threshold_real, threshold_real, funext (F.pivotSize_scale hc),
      largest_mul hc.le F.pivotSize]
    ring
  simp only [isSingular_real_iff, F.pivotSize_scale hc, hthreshold, mul_le_mul_iff_right₀ hc]

theorem weakestColumn?_scale : (F.scale c).weakestColumn? = F.weakestColumn? := by
  have hbefore : ∀ a b : ℝ, Scalar.precedes (c * a) (c * b) = Scalar.precedes a b := fun a b => by
    rw [precedes_real, precedes_real]
    exact decide_eq_decide.mpr (mul_lt_mul_iff_right₀ hc)
  have hsearch := firstLeast?_map (f := fun k => some (F.pivotSize k)) (c * ·) hbefore
  simp only [Option.map_some, ← F.pivotSize_scale hc] at hsearch
  have hstep : (F.scale c).weakestStep? = F.weakestStep? :=
    (congrArg (Option.map Prod.fst) hsearch).trans (Option.map_map _ _ _)
  rw [weakestColumn?, hstep]
  rfl

theorem solveTransposed_scale (b : Vector ℝ n) :
    (F.scale c).solveTransposed b = c⁻¹ • F.solveTransposed b := by
  have htriangle : ∀ k j, (F.scale c).triangle.entry k j = c * F.triangle.entry k j :=
    Mat.entry_map _ F.triangle
  unfold solveTransposed
  simp only [htriangle, substitute_mul hc.ne']
  exact F.applyQ_smul c⁻¹ _

theorem solve_scale (b : Vector ℝ n) : (F.scale c).solve b = c⁻¹ • F.solve b := by
  have htriangle : ∀ k j, (F.scale c).triangle.entry k j = c * F.triangle.entry k j :=
    Mat.entry_map _ F.triangle
  have hsolve : ∀ y, (F.scale c).solveTriangle y = c⁻¹ • F.solveTriangle y := by
    intro y
    unfold solveTriangle
    simp only [htriangle, substitute_mul hc.ne']
    exact vector_ext fun k => by rw [get_ofFn, get_smul, get_smul, get_ofFn]
  rw [solve, hsolve, scatter_smul]
  rfl

end Factorization

include hc

section Matrices

variable {h : Pattern n n} {a : Pattern m n} {rule : ColumnOrder} {M N : Mat ℝ (n + m) (n + m)}
variable (hN : ∀ i j, N.entry i j = c * M.entry i j)
include hN

/-- The masks keep the reflectors to their side of the diagonal and the triangular factor to the
other, so only the latter is multiplied. -/
theorem factorize_mul :
    (analyze h a rule).factorize N = ((analyze h a rule).factorize M).scale c := by
  let S := analyze h a rule
  have hpermuted : ∀ i j, (N.permuteColumns S.order).entry i j =
      c * (M.permuteColumns S.order).entry i j := fun i j => by
    rw [Mat.entry_permuteColumns, Mat.entry_permuteColumns, hN]
  have hreflectors : (S.factorize N).reflectors = (S.factorize M).reflectors := by
    apply Mat.ext_entry
    intro i j
    change (S.reflectors.restrict _).entry i j = (S.reflectors.restrict _).entry i j
    rw [Pattern.entry_restrict, Pattern.entry_restrict]
    split_ifs with hmask
    · have hji : j < i := by
        change (Pattern.strictLower _).entry i j = true at hmask
        rw [Pattern.entry_strictLower, Bool.and_eq_true, decide_eq_true_eq] at hmask
        exact hmask.1
      exact Packed.entry_eliminate_of_lt hc hpermuted hji
    · rfl
  have htriangle : (S.factorize N).triangle = (S.factorize M).triangle.map (c * ·) := by
    apply Mat.ext_entry
    intro i j
    change (S.triangle.restrict _).entry i j = ((S.triangle.restrict _).map _).entry i j
    rw [Mat.entry_map, Pattern.entry_restrict, Pattern.entry_restrict]
    split_ifs with hmask
    · have hij : i ≤ j := by
        change (Pattern.upper _).entry i j = true at hmask
        rw [Pattern.entry_upper, Bool.and_eq_true, decide_eq_true_eq] at hmask
        exact hmask.1
      exact Packed.entry_eliminate_of_le hc hpermuted hij
    · exact (mul_zero c).symm
  have hbeta : (S.factorize N).beta = (S.factorize M).beta :=
    vector_ext (Packed.scaled_eliminateTo hc hpermuted le_rfl).beta
  exact congr (congr (congr (congrArg Factorization.mk hreflectors) htriangle) hbeta) rfl

/-- Uniformly scaled matrices are judged alike. -/
theorem isSingular_factorize_mul_iff {unit : ℝ} :
    ((analyze h a rule).factorize N).IsSingular unit ↔
      ((analyze h a rule).factorize M).IsSingular unit := by
  rw [factorize_mul hc hN]
  exact Factorization.isSingular_scale_iff hc _

end Matrices

omit hc in
/-- Both the flag and the column to blame are those of the matrix itself, and what is not flagged is
solved with the same reflectors and a division. -/
theorem factors_and_solves_scaled (hc : 0 < c) (unit : ℝ) (h : Pattern n n) (a : Pattern m n)
    (rule : ColumnOrder) (M : Mat ℝ (n + m) (n + m)) (b : Vector ℝ (n + m)) :
    let F := (analyze h a rule).factorize M
    let G := (analyze h a rule).factorize (M.map (c * ·))
    G.reflectors = F.reflectors ∧ G.beta = F.beta ∧ G.triangle = F.triangle.map (c * ·) ∧
      (G.IsSingular unit ↔ F.IsSingular unit) ∧ G.weakestColumn? = F.weakestColumn? ∧
      (¬ F.IsSingular unit →
        G.solveTransposed b = (1 / c) • F.solveTransposed b ∧ G.solve b = (1 / c) • F.solve b) := by
  intro F G
  have hG : G = F.scale c := factorize_mul hc (Mat.entry_map _ M)
  rw [hG, one_div]
  exact ⟨rfl, rfl, rfl, F.isSingular_scale_iff hc, F.weakestColumn?_scale hc,
    fun _ => ⟨F.solveTransposed_scale hc b, F.solve_scale hc b⟩⟩

section Saddle

omit hc

/-- The factors have the inner products of the columns, which leaves one size for each pivot. -/
theorem pivotSize_saddle (k : Fin (1 + 1)) :
    let S := analyze (Mat.ofFn fun _ _ => true) (Mat.ofFn fun _ _ => true) .natural
    let F := S.factorize saddle
    1 / 2 ≤ F.pivotSize k ∧ F.pivotSize k ≤ 2 := by
  intro S F
  have hF : F.IsExact saddle := isExact_factorize (covers_of_marked saddle _)
  have horder : ∀ j, F.order.get j = j := fun j => get_ofFn id j
  have hcolumns : ∀ i j, F.triangle.entry 0 i * F.triangle.entry 0 j +
      F.triangle.entry 1 i * F.triangle.entry 1 j =
        saddle.entry 0 i * saddle.entry 0 j + saddle.entry 1 i * saddle.entry 1 j := by
    intro i j
    have hdot := hF.triangle_column_dotProduct i j
    rw [dotProduct, dotProduct, Fin.sum_univ_two, Fin.sum_univ_two, horder, horder] at hdot
    simpa only [Mat.get_column] using hdot
  have hbelow : F.triangle.entry 1 0 = 0 := hF.triangular 1 0 (by decide)
  have h00 := hcolumns 0 0
  have h01 := hcolumns 0 1
  have h11 := hcolumns 1 1
  simp only [hbelow, saddle, Mat.entry_ofFn] at h00 h01 h11
  norm_num at h00 h01 h11
  have hsquares : ∀ k, F.triangle.entry k k ^ 2 = 2 ∨ F.triangle.entry k k ^ 2 = 1 / 2 := by
    refine Fin.forall_fin_two.mpr ⟨Or.inl ((sq _).trans h00), Or.inr ?_⟩
    linear_combination h11 - 1 / 2 * (F.triangle.entry 0 0 * F.triangle.entry 0 1 + 1) * h01 +
      1 / 2 * F.triangle.entry 0 1 ^ 2 * h00
  have hnonneg : 0 ≤ F.pivotSize k := abs_nonneg _
  have hsquare := hsquares k
  rw [← sq_abs, ← Factorization.pivotSize_real] at hsquare
  rcases hsquare with hsquare | hsquare
  · exact ⟨by nlinarith, by nlinarith⟩
  · exact ⟨by nlinarith, by nlinarith⟩

theorem factors_and_solves_scaled_saddle :
    let S := analyze (Mat.ofFn fun _ _ => true) (Mat.ofFn fun _ _ => true) .natural
    let F := S.factorize saddle
    let G := S.factorize (saddle.map (2 * ·))
    (0 : ℝ) < 2 ∧ ¬ F.IsSingular (1 / 2 ^ 52) ∧ ¬ G.IsSingular (1 / 2 ^ 52) ∧
      G.reflectors = F.reflectors ∧ G.solve #v[1, 0] = (1 / 2 : ℝ) • F.solve #v[1, 0] := by
  intro S F G
  have hregular : ¬ F.IsSingular (1 / 2 ^ 52) := by
    rw [Factorization.isSingular_real_iff]
    rintro ⟨k, hk⟩
    have hlargest : largest F.pivotSize ≤ 2 :=
      largest_le_iff.mpr ⟨zero_le_two, fun j => (pivotSize_saddle j).2⟩
    have hlow := (pivotSize_saddle k).1
    rw [Factorization.threshold_real] at hk
    push_cast at hk
    linarith
  obtain ⟨hreflectors, -, -, hsingular, -, hsolves⟩ :=
    factors_and_solves_scaled zero_lt_two (1 / 2 ^ 52) (Mat.ofFn fun _ _ => true)
      (Mat.ofFn fun _ _ => true) .natural saddle #v[1, 0]
  exact ⟨zero_lt_two, hregular, fun hG => hregular (hsingular.mp hG), hreflectors,
    (hsolves hregular).2⟩

end Saddle

end QuadraticProgram
