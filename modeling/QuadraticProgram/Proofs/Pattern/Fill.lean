import QuadraticProgram.Pattern.Fill
import QuadraticProgram.Proofs.Exact.Elimination

/-! # The fill covers the elimination

A pattern covers a matrix when every nonzero entry is marked. Step by step the symbolic fill covers
the packed factors of every matrix that the pattern covers at the start, so restricting the factors
to their fill changes nothing.
-/
namespace QuadraticProgram
open Matrix

variable {m n : ℕ}

namespace Pattern

def Covers (P : Pattern m n) (M : Mat ℝ m n) : Prop :=
  ∀ i j, M.entry i j ≠ 0 → P.entry i j = true

theorem isZero_real (a : ℝ) : Scalar.isZero a = true ↔ a = 0 := decide_eq_true_iff

/-- The check for entries outside a pattern finds none exactly when the pattern covers the
matrix. -/
theorem not_misses_iff {P : Pattern m n} {M : Mat ℝ m n} : ¬ P.Misses M ↔ P.Covers M := by
  simp only [Misses, Covers, entry_nonzeros, Bool.not_eq_true', ← Bool.not_eq_true, isZero_real,
    not_exists, not_and, not_not]

theorem covers_nonzeros (M : Mat ℝ m n) : (nonzeros M).Covers M := by
  intro i j h
  rw [entry_nonzeros, Bool.not_eq_true', ← Bool.not_eq_true, isZero_real]
  exact h

theorem Covers.permuteColumns {P : Pattern n n} {M : Mat ℝ n n} (h : P.Covers M)
    (order : Vector (Fin n) n) : Covers (P.permuteColumns order) (M.permuteColumns order) := by
  intro i k hik
  rw [Mat.entry_permuteColumns] at hik ⊢
  exact h i _ hik

theorem Covers.restrict {P : Pattern m n} {M : Mat ℝ m n} (h : P.Covers M) : P.restrict M = M := by
  apply Mat.ext_entry
  intro i j
  rw [entry_restrict]
  split_ifs with hp
  · rfl
  · by_contra hne
    exact hp (h i j (Ne.symm hne))

@[simp] theorem get_reflectedRows (W : Pattern n n) (k r : Fin n) :
    (W.reflectedRows k).get r = true ↔ r = k ∨ k < r ∧ W.entry r k = true := by
  simp [reflectedRows]

@[simp] theorem get_filledColumns (W : Pattern n n) (k : Fin n) (rows : Vector Bool n)
    (c : Fin n) :
    (W.filledColumns k rows).get c = true ↔
      c = k ∨ k < c ∧ ∃ r, rows.get r = true ∧ W.entry r c = true := by
  simp [filledColumns]

theorem entry_fillStep_iff (k : Fin n) (W : Pattern n n) (r c : Fin n) :
    (fillStep k W).entry r c = true ↔
      W.entry r c = true ∨ (W.reflectedRows k).get r = true ∧
        (W.filledColumns k (W.reflectedRows k)).get c = true := by
  rw [entry_fillStep, Bool.or_eq_true, Bool.and_eq_true]

theorem Covers.reflectedRows {W : Pattern n n} {M : Mat ℝ n n} (h : W.Covers M) {k r : Fin n}
    (hr : (Reflector.direct (M.column k) k).vector.get r ≠ 0) :
    (W.reflectedRows k).get r = true := by
  rw [get_reflectedRows]
  rcases lt_trichotomy r k with hrk | rfl | hrk
  · exact absurd (Reflector.get_vector_eq_zero hrk) hr
  · exact Or.inl rfl
  · right
    refine ⟨hrk, h r k fun h0 => hr ?_⟩
    rw [Reflector.get_vector_of_lt hrk, Mat.get_column, h0, zero_div]

theorem Covers.filledColumns {W : Pattern n n} {M : Mat ℝ n n} (h : W.Covers M) {k c : Fin n}
    (hc : k < c) (hdot : (Reflector.direct (M.column k) k).vector.get ⬝ᵥ (M.column c).get ≠ 0) :
    (W.filledColumns k (W.reflectedRows k)).get c = true := by
  obtain ⟨r, -, hr⟩ := Finset.exists_ne_zero_of_sum_ne_zero hdot
  rw [get_filledColumns]
  refine Or.inr ⟨hc, r, h.reflectedRows (left_ne_zero_of_mul hr), h r c ?_⟩
  simpa using right_ne_zero_of_mul hr

/-- One step: the fill of a pattern that covers a matrix covers the matrix after the reflection. -/
theorem Covers.step {W : Pattern n n} {s : Packed ℝ n} (h : W.Covers s.matrix) (k : Fin n) :
    (fillStep k W).Covers (Packed.step k s).matrix := by
  intro i j hij
  rw [entry_fillStep_iff]
  by_cases htail : Reflector.tailLength (s.matrix.column k) k = 0
  · rw [Packed.step_of_tailLength_eq_zero htail] at hij
    exact Or.inl (h i j hij)
  rw [Packed.entry_step htail] at hij
  by_cases hbefore : i < k ∨ j < k
  · rw [if_pos hbefore] at hij
    exact Or.inl (h i j hij)
  rw [if_neg hbefore] at hij
  obtain ⟨-, hj⟩ := not_or.mp hbefore
  by_cases hjk : j = k
  · subst hjk
    rw [if_pos rfl] at hij
    refine Or.inr ⟨?_, (get_filledColumns W j _ j).mpr (Or.inl rfl)⟩
    by_cases hi : i = j
    · exact (get_reflectedRows W j i).mpr (Or.inl hi)
    · rw [if_neg hi] at hij
      exact h.reflectedRows hij
  · rw [if_neg hjk, get_reflect, Mat.get_column, dot_real] at hij
    by_cases hM : s.matrix.entry i j = 0
    · rw [hM, zero_sub, neg_ne_zero] at hij
      have hv := right_ne_zero_of_mul (left_ne_zero_of_mul hij)
      have hkj := lt_of_le_of_ne (not_lt.mp hj) (Ne.symm hjk)
      exact Or.inr ⟨h.reflectedRows hv, h.filledColumns hkj (right_ne_zero_of_mul hij)⟩
    · exact Or.inl (h i j hM)

theorem Covers.eliminateTo {P : Pattern n n} {M : Mat ℝ n n} (h : P.Covers M)
    (order : Vector (Fin n) n) {k : ℕ} (hk : k ≤ n) :
    (P.fillTo order k hk).Covers (Packed.eliminateTo (M.permuteColumns order) k hk).matrix := by
  induction k with
  | zero => exact h.permuteColumns order
  | succ k ih => exact (ih (Nat.le_of_succ_le hk)).step ⟨k, hk⟩

/-- Below the diagonal the fill keeps the reflector vectors, and nothing is left elsewhere. -/
theorem Covers.entry_restrict_strictLower {P : Pattern n n} {M : Mat ℝ n n} (h : P.Covers M)
    (i j : Fin n) : (P.strictLower.restrict M).entry i j = if j < i then M.entry i j else 0 := by
  have hM := congrArg (fun N : Mat ℝ n n => N.entry i j) h.restrict
  by_cases hji : j < i
  · simpa [entry_restrict, hji] using hM
  · simp [hji]

/-- On and above the diagonal the fill keeps the triangular factor, and nothing is left below. -/
theorem Covers.entry_restrict_upper {P : Pattern n n} {M : Mat ℝ n n} (h : P.Covers M)
    (i j : Fin n) : (P.upper.restrict M).entry i j = if j < i then 0 else M.entry i j := by
  have hM := congrArg (fun N : Mat ℝ n n => N.entry i j) h.restrict
  by_cases hji : j < i
  · simp [hji, not_le.mpr hji]
  · simpa [entry_restrict, hji, not_lt.mp hji] using hM

end Pattern

end QuadraticProgram
