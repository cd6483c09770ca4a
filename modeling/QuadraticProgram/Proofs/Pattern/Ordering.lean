import Mathlib.Data.Fintype.EquivFin
import Mathlib.Order.Bounds.Defs
import QuadraticProgram.Analysis

/-! # Orderings are permutations

At every step of the greedy ordering some column is still there, and the next one is the first of
those with the least degree. So no column is eliminated twice, and with as many steps as columns
none is left out.
-/
namespace QuadraticProgram.Pattern

variable {m n : ℕ}

namespace Elimination

theorem get_remaining_foldl (s : Elimination n) (columns : List (Fin n)) (i : Fin n) :
    (columns.foldl eliminate s).remaining.get i = true ↔
      s.remaining.get i = true ∧ i ∉ columns := by
  induction columns generalizing s with
  | nil => simp
  | cons p rest ih =>
    rw [List.foldl_cons, ih, get_remaining_eliminate, Bool.and_eq_true, bne_iff_ne,
      List.mem_cons, not_or, and_assoc]

/-- Degrees are numbers, so the search finds the first of the least ones. -/
theorem isFirstLeast_degree (s : Elimination n) :
    IsFirstLeast (fun a b : ℕ => decide (a < b))
      (fun i => if s.remaining.get i then some (s.degree i) else none) n
      (firstLeast? (fun a b : ℕ => decide (a < b)) fun i =>
        if s.remaining.get i then some (s.degree i) else none) := by
  refine isFirstLeast_firstLeast? (fun a b => ?_) fun a b c => ?_
  · simp only [decide_eq_true_eq, decide_eq_false_iff_not]
    omega
  · simp only [decide_eq_true_eq]
    omega

/-- The next column is the first of the remaining ones that have the least degree. -/
theorem isLeast_of_next? {s : Elimination n} {p : Fin n} (hp : s.next? = some p) :
    IsLeast {c | s.remaining.get c = true ∧
      ∀ d, s.remaining.get d = true → s.degree c ≤ s.degree d} p := by
  obtain ⟨⟨q, a⟩, hbest, rfl⟩ := Option.map_eq_some_iff.mp hp
  have hspec := isFirstLeast_degree s
  rw [hbest] at hspec
  obtain ⟨-, hvalue, hleast, hfirst⟩ := hspec
  have hq : s.remaining.get q = true := by
    by_contra hq
    simp [hq] at hvalue
  obtain rfl : s.degree q = a := by simpa [hq] using hvalue
  refine ⟨⟨hq, fun d hd => ?_⟩, fun c hc => ?_⟩
  · simpa using hleast d d.isLt (s.degree d) (if_pos hd)
  · by_contra hcq
    have hlt := hfirst c (not_le.mp hcq) (s.degree c) (if_pos hc.1)
    exact absurd (hc.2 q hq) (not_le.mpr (of_decide_eq_true hlt))

theorem exists_next? {s : Elimination n} {i : Fin n} (hi : s.remaining.get i = true) :
    ∃ p, s.next? = some p ∧ s.remaining.get p = true := by
  cases hnext : s.next? with
  | none =>
    have hspec := isFirstLeast_degree s
    rw [Option.map_eq_none_iff.mp hnext] at hspec
    have hnone := hspec i i.isLt
    simp [hi] at hnone
  | some p => exact ⟨p, rfl, (isLeast_of_next? hnext).1.1⟩

end Elimination

theorem get_mem_toList {τ : Type} {k : ℕ} (v : Vector τ k) (i : Fin k) : v.get i ∈ v.toList := by
  rw [get_eq_getElem, ← Vector.getElem_toList (by simp)]
  exact List.getElem_mem _

theorem exists_notMem_of_lt {k : ℕ} (hk : k < n) (columns : Vector (Fin n) k) :
    ∃ i, i ∉ columns.toList := by
  by_contra hall
  simp only [not_exists, not_not] at hall
  have hsurj : Function.Surjective columns.get := by
    intro i
    obtain ⟨j, hj, hji⟩ := List.getElem_of_mem (hall i)
    have hjk : j < k := by simpa using hj
    exact ⟨⟨j, hjk⟩, by simpa [get_eq_getElem] using hji⟩
  have hcard := Fintype.card_le_of_surjective _ hsurj
  simp only [Fintype.card_fin] at hcard
  omega

/-- Every step eliminates a column that was not eliminated before. -/
theorem next_notMem {k : ℕ} (hk : k < n) (P : Pattern m n) (columns : Vector (Fin n) k) :
    ((columns.foldl Elimination.eliminate (Elimination.start P)).next?).getD ⟨k, hk⟩ ∉
      columns.toList := by
  obtain ⟨i, hi⟩ := exists_notMem_of_lt hk columns
  rw [← Vector.foldl_toList]
  have hremaining := fun j => Elimination.get_remaining_foldl (Elimination.start P) columns.toList j
  obtain ⟨p, hp, hpr⟩ :=
    Elimination.exists_next? ((hremaining i).mpr ⟨by simp [Elimination.start], hi⟩)
  rw [hp]
  exact ((hremaining p).mp hpr).2

theorem minimumDegree_injective (P : Pattern m n) : Function.Injective P.minimumDegree.get := by
  have hlt : ∀ j k : Fin n, j < k → P.minimumDegree.get j ≠ P.minimumDegree.get k := by
    intro j k hjk heq
    rw [minimumDegree, get_build _ k, ← get_buildTo_eq_get_build _ k.isLt.le ⟨j, hjk⟩] at heq
    have hmem := get_mem_toList (buildTo (fun k eliminated =>
      ((eliminated.foldl Elimination.eliminate (Elimination.start P)).next?).getD k) k k.isLt.le)
      ⟨j, hjk⟩
    rw [heq] at hmem
    exact next_notMem k.isLt P _ hmem
  intro j k heq
  rcases lt_trichotomy j k with h | h | h
  · exact absurd heq (hlt j k h)
  · exact h
  · exact absurd heq.symm (hlt k j h)

end QuadraticProgram.Pattern

namespace QuadraticProgram

/-- Either rule takes every column exactly once. -/
theorem ColumnOrder.apply_bijective (rule : ColumnOrder) {m n : ℕ} (P : Pattern m n) :
    Function.Bijective (rule.apply P).get := by
  rw [← Finite.injective_iff_bijective]
  cases rule with
  | minimumDegree => exact P.minimumDegree_injective
  | natural =>
    intro i j h
    simpa [apply] using h

end QuadraticProgram
