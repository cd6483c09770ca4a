import QuadraticProgram.Proofs.Exact.Reflector

/-! # The exact elimination

A step of the elimination reflects every column of the matrix reached so far, with the finished
columns read as triangular. The reflectors of earlier steps are never written again. So a column of
the triangular factor is the column of the matrix after all reflections.
-/
namespace QuadraticProgram
open Matrix

variable {n : ℕ}

theorem sweep_congr {σ : Type} {f g : Fin n → σ → σ} {start : σ} {k : ℕ} (hk : k ≤ n)
    (h : ∀ i : Fin n, i.val < k → f i = g i) : sweep f start k hk = sweep g start k hk := by
  induction k with
  | zero => rfl
  | succ k ih =>
    rw [sweep, sweep, ih (Nat.le_of_succ_le hk) fun i hi => h i (Nat.lt_succ_of_lt hi),
      h ⟨k, hk⟩ (Nat.lt_succ_self k)]

namespace Packed

def reflector (s : Packed ℝ n) (k : Fin n) : Vector ℝ n :=
  Vector.ofFn fun i => if i = k then 1 else if k < i then s.matrix.entry i k else 0

@[simp] theorem get_reflector (s : Packed ℝ n) (k i : Fin n) :
    (s.reflector k).get i = if i = k then 1 else if k < i then s.matrix.entry i k else 0 := by
  simp [reflector]

/-- Column `j` of the matrix reached after `k` steps, zero below the diagonal once it is
finished. -/
def reached (s : Packed ℝ n) (k : ℕ) (j : Fin n) : Vector ℝ n :=
  Vector.ofFn fun i => if j.val < k ∧ j < i then 0 else s.matrix.entry i j

@[simp] theorem get_reached (s : Packed ℝ n) (k : ℕ) (j i : Fin n) :
    (s.reached k j).get i = if j.val < k ∧ j < i then 0 else s.matrix.entry i j := by
  simp [reached]

section Step

variable {s : Packed ℝ n} {k : Fin n}

theorem step_of_tailLength_eq_zero (h : Reflector.tailLength (s.matrix.column k) k = 0) :
    step k s = s := by
  simp only [step, same_real, h, if_true]

theorem entry_step (h : Reflector.tailLength (s.matrix.column k) k ≠ 0) (i j : Fin n) :
    (step k s).matrix.entry i j =
      if i < k ∨ j < k then s.matrix.entry i j
      else if j = k then
        if i = k then (Reflector.direct (s.matrix.column k) k).pivot
        else (Reflector.direct (s.matrix.column k) k).vector.get i
      else (reflect (Reflector.direct (s.matrix.column k) k).beta
        (Reflector.direct (s.matrix.column k) k).vector (s.matrix.column j)).get i := by
  simp only [step, same_real, h, if_false, Reflector.ofColumn_real, Mat.entry_ofFn,
    Reflector.entry_apply_real fun i hi => Reflector.get_vector_eq_zero hi]

theorem beta_step (h : Reflector.tailLength (s.matrix.column k) k ≠ 0) :
    (step k s).beta =
      s.beta.set k (Reflector.direct (s.matrix.column k) k).beta k.isLt := by
  simp only [step, same_real, h, if_false, Reflector.ofColumn_real]

theorem entry_step_of_lt {i j : Fin n} (hj : j < k) :
    (step k s).matrix.entry i j = s.matrix.entry i j := by
  by_cases h : Reflector.tailLength (s.matrix.column k) k = 0
  · rw [step_of_tailLength_eq_zero h]
  · rw [entry_step h, if_pos (Or.inr hj)]

theorem reflector_step_of_lt {j : Fin n} (hj : j < k) :
    (step k s).reflector j = s.reflector j :=
  vector_ext fun i => by rw [get_reflector, get_reflector, entry_step_of_lt hj]

theorem get_beta_step_of_ne {j : Fin n} (hj : j ≠ k) :
    (step k s).beta.get j = s.beta.get j := by
  by_cases h : Reflector.tailLength (s.matrix.column k) k = 0
  · rw [step_of_tailLength_eq_zero h]
  · rw [beta_step h, get_set, if_neg hj]

theorem get_beta_step_self (h : Reflector.tailLength (s.matrix.column k) k ≠ 0) :
    (step k s).beta.get k = (Reflector.direct (s.matrix.column k) k).beta := by
  rw [beta_step h, get_set, if_pos rfl]

theorem reflector_step_self (h : Reflector.tailLength (s.matrix.column k) k ≠ 0) :
    (step k s).reflector k = (Reflector.direct (s.matrix.column k) k).vector := by
  apply vector_ext
  intro i
  rw [get_reflector, entry_step h]
  rcases lt_trichotomy i k with hi | rfl | hi
  · rw [if_neg hi.ne, if_neg (not_lt.mpr hi.le), Reflector.get_vector_eq_zero hi]
  · rw [if_pos rfl, Reflector.get_vector_self]
  · rw [if_neg hi.ne', if_pos hi, if_neg (not_or.mpr ⟨not_lt.mpr hi.le, lt_irrefl k⟩), if_pos rfl,
      if_neg hi.ne']

theorem fits_step (hs : s.beta.get k = 0) :
    Fits ((step k s).beta.get k) ((step k s).reflector k) := by
  by_cases h : Reflector.tailLength (s.matrix.column k) k = 0
  · rw [step_of_tailLength_eq_zero h]
    exact Or.inl hs
  · rw [get_beta_step_self h, reflector_step_self h]
    exact Reflector.fits_direct h

theorem get_reached_succ_of_ne {j : Fin n} (hj : j ≠ k) (i : Fin n) :
    (s.reached (k + 1) j).get i = (s.reached k j).get i := by
  have hval := Fin.val_ne_of_ne hj
  have hiff : j.val < k.val + 1 ↔ j.val < k.val := by omega
  simp only [get_reached, hiff]

theorem reached_succ_of_tailLength_eq_zero (h : Reflector.tailLength (s.matrix.column k) k = 0)
    (j : Fin n) : s.reached (k + 1) j = s.reached k j := by
  have htail := Reflector.tailLength_eq_zero_iff.mp h
  apply vector_ext
  intro i
  by_cases hj : j = k
  · subst hj
    by_cases hi : j < i
    · simpa [hi] using (htail i hi).symm
    · simp [hi]
  · exact get_reached_succ_of_ne hj i

theorem reached_of_le {j : Fin n} (hj : k ≤ j) : s.reached k j = s.matrix.column j :=
  vector_ext fun i => by simp [not_lt.mpr (Fin.le_def.mp hj)]

/-- A finished column is zero from row `k` on, where the vectors of the later reflectors live. -/
theorem dotProduct_reached_of_lt {v : Vector ℝ n} (hv : ∀ i < k, v.get i = 0) {j : Fin n}
    (hj : j < k) : v.get ⬝ᵥ (s.reached k j).get = 0 := by
  refine Finset.sum_eq_zero fun i _ => ?_
  rcases lt_or_ge i k with hi | hi
  · rw [hv i hi, zero_mul]
  · rw [get_reached, if_pos ⟨hj, lt_of_lt_of_le hj hi⟩, mul_zero]

/-- A step reflects every column of the matrix reached so far. -/
theorem reached_step (hs : s.beta.get k = 0) (j : Fin n) :
    (step k s).reached (k + 1) j =
      reflect ((step k s).beta.get k) ((step k s).reflector k) (s.reached k j) := by
  by_cases h : Reflector.tailLength (s.matrix.column k) k = 0
  · rw [step_of_tailLength_eq_zero h, hs, reflect_zero, reached_succ_of_tailLength_eq_zero h]
  · rw [get_beta_step_self h, reflector_step_self h]
    apply vector_ext
    intro i
    rcases lt_trichotomy j k with hj | rfl | hj
    · rw [get_reflect, dot_real,
        dotProduct_reached_of_lt (fun p hp => Reflector.get_vector_eq_zero hp) hj, mul_zero,
        sub_zero, get_reached_succ_of_ne hj.ne, get_reached, get_reached, entry_step_of_lt hj]
    · rw [reached_of_le le_rfl, Reflector.get_reflect_column h, get_reached, entry_step h,
        Mat.get_column]
      rcases lt_trichotomy i j with hi | rfl | hi
      · simp [hi, not_lt.mpr hi.le]
      · simp
      · simp [hi, hi.ne', not_lt.mpr hi.le]
    · rw [reached_of_le hj.le, get_reached_succ_of_ne hj.ne', reached_of_le hj.le, Mat.get_column,
        entry_step h]
      rcases lt_or_ge i k with hi | hi
      · rw [if_pos (Or.inl hi), get_reflect, Reflector.get_vector_eq_zero hi, mul_zero, zero_mul,
          sub_zero, Mat.get_column]
      · rw [if_neg (not_or.mpr ⟨not_lt.mpr hi, not_lt.mpr hj.le⟩), if_neg hj.ne']

end Step

variable (M : Mat ℝ n n)

theorem eliminateTo_succ {k : ℕ} (hk : k + 1 ≤ n) :
    eliminateTo M (k + 1) hk = step ⟨k, hk⟩ (eliminateTo M k (Nat.le_of_succ_le hk)) := rfl

theorem get_beta_eliminateTo_of_le {k : ℕ} (hk : k ≤ n) {l : Fin n} (hl : k ≤ l.val) :
    (eliminateTo M k hk).beta.get l = 0 := by
  induction k with
  | zero => simp [eliminateTo, sweep, start]
  | succ k ih =>
    have hne : l ≠ ⟨k, hk⟩ := fun h => absurd (congrArg Fin.val h) (Nat.ne_of_gt hl)
    rw [eliminateTo_succ, get_beta_step_of_ne hne]
    exact ih _ (Nat.le_of_succ_le hl)

theorem fits_eliminateTo {k : ℕ} (hk : k ≤ n) (l : Fin n) :
    Fits ((eliminateTo M k hk).beta.get l) ((eliminateTo M k hk).reflector l) := by
  induction k with
  | zero => exact Or.inl (get_beta_eliminateTo_of_le M hk (Nat.zero_le _))
  | succ k ih =>
    rcases lt_trichotomy l ⟨k, hk⟩ with hl | rfl | hl
    · rw [eliminateTo_succ, get_beta_step_of_ne hl.ne, reflector_step_of_lt hl]
      exact ih _
    · exact fits_step (get_beta_eliminateTo_of_le M _ le_rfl)
    · exact Or.inl (get_beta_eliminateTo_of_le M hk hl)

/-- After `k` steps the first `k` reflectors have been applied to every column. -/
theorem reached_eliminateTo {k : ℕ} (hk : k ≤ n) (j : Fin n) :
    (eliminateTo M k hk).reached k j =
      sweep (fun l => reflect ((eliminateTo M k hk).beta.get l) ((eliminateTo M k hk).reflector l))
        (M.column j) k hk := by
  induction k with
  | zero => exact vector_ext fun i => by simp [eliminateTo, sweep, start]
  | succ k ih =>
    have hk' := Nat.le_of_succ_le hk
    have hbeta : (eliminateTo M k hk').beta.get ⟨k, hk⟩ = 0 :=
      get_beta_eliminateTo_of_le M hk' le_rfl
    have hold : ∀ l : Fin n, l.val < k →
        reflect ((eliminateTo M k hk').beta.get l) ((eliminateTo M k hk').reflector l) =
          reflect ((eliminateTo M (k + 1) hk).beta.get l)
            ((eliminateTo M (k + 1) hk).reflector l) := by
      intro l hl
      rw [eliminateTo_succ, get_beta_step_of_ne (Fin.ne_of_lt hl), reflector_step_of_lt hl]
    rw [sweep, ← sweep_congr hk' hold, ← ih hk', eliminateTo_succ]
    exact reached_step hbeta j

/-- A matrix without entries below the diagonal is left alone. -/
theorem eliminateTo_of_upper {M : Mat ℝ n n} (hM : ∀ i j, j < i → M.entry i j = 0) {k : ℕ}
    (hk : k ≤ n) : eliminateTo M k hk = start M := by
  induction k with
  | zero => rfl
  | succ k ih =>
    rw [eliminateTo_succ, ih, step_of_tailLength_eq_zero]
    refine Reflector.tailLength_eq_zero_iff.mpr fun i hi => ?_
    rw [Mat.get_column]
    exact hM i _ hi

theorem fits_eliminate (l : Fin n) : Fits ((eliminate M).beta.get l) ((eliminate M).reflector l) :=
  fits_eliminateTo M le_rfl l

/-- All reflections together take a column of the matrix to the column of the triangular factor. -/
theorem get_sweep_reflect_column (i j : Fin n) :
    (sweep (fun l => reflect ((eliminate M).beta.get l) ((eliminate M).reflector l)) (M.column j) n
      le_rfl).get i = if j < i then 0 else (eliminate M).matrix.entry i j := by
  have h := reached_eliminateTo M le_rfl j
  rw [eliminate, ← h, get_reached]
  simp [j.isLt]

end Packed

end QuadraticProgram
