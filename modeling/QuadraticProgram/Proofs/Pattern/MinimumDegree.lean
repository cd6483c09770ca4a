import Mathlib.Data.Set.Card
import QuadraticProgram.Proofs.Pattern.FillPath
import QuadraticProgram.Proofs.Pattern.Ordering

/-! # The greedy ordering counts paths

The graph that the eliminations leave joins two remaining columns exactly when they are linked
through the eliminated ones, whatever it keeps in the rows of those. So the degree that the ordering
compares is the number of columns that a column reaches through eliminated columns in the graph it
started from.
-/
namespace QuadraticProgram.Pattern

variable {m n : ℕ}

noncomputable def reachableDegree (P : Pattern m n) (eliminated : Set (Fin n)) (c : Fin n) : ℕ :=
  {d | d ∉ eliminated ∧ d ≠ c ∧ HasPathThrough P.intersectionGraph eliminated c d}.ncard

namespace Elimination

/-- What is left of a pattern after columns were eliminated. Rows and columns of the eliminated ones
may hold anything. -/
structure IsAfter (P : Pattern m n) (eliminated : Set (Fin n)) (s : Elimination n) : Prop where
  remaining c : s.remaining.get c = true ↔ c ∉ eliminated
  loopless c : s.graph.entry c c = false
  joined {c d} (hc : c ∉ eliminated) (hd : d ∉ eliminated) (hne : c ≠ d) :
    s.graph.entry c d = true ↔ Linked P.intersectionGraph eliminated c d

variable {P : Pattern m n} {eliminated : Set (Fin n)} {s : Elimination n} {p c : Fin n}

theorem isAfter_start (P : Pattern m n) : IsAfter P ∅ (start P) where
  remaining c := by simp [start]
  loopless c := by simp [start]
  joined {c d} _ _ _ := by
    rw [Linked.empty_iff, adj_intersectionGraph, start, entry_columnGraph, decide_eq_true_iff]

/-- One elimination: joining the neighbours of a column adds the links by way of it. -/
theorem IsAfter.eliminate (h : IsAfter P eliminated s) (hp : p ∉ eliminated) :
    IsAfter P (insert p eliminated) (s.eliminate p) where
  remaining c := by
    rw [get_remaining_eliminate, Bool.and_eq_true, bne_iff_ne, h.remaining, Set.mem_insert_iff,
      not_or, and_comm]
  loopless c := by simp [h.loopless c]
  joined {c d} hc hd hne := by
    obtain ⟨hcp, hc⟩ := not_or.mp hc
    obtain ⟨hdp, hd⟩ := not_or.mp hd
    have hentry : (s.eliminate p).graph.entry c d = true ↔
        s.graph.entry c d = true ∨ s.graph.entry p c = true ∧ s.graph.entry p d = true := by
      simp [(h.remaining c).mpr hc, (h.remaining d).mpr hd, hcp, hdp, hne]
    rw [hentry, h.joined hc hd hne, h.joined hp hc (Ne.symm hcp), h.joined hp hd (Ne.symm hdp),
      Linked.insert_iff]
    exact or_congr_right (and_congr_left' ⟨Linked.symm, Linked.symm⟩)

theorem IsAfter.degree_eq (h : IsAfter P eliminated s) (hc : c ∉ eliminated) :
    s.degree c = P.reachableDegree eliminated c := by
  have hneighbours :
      {d | d ∉ eliminated ∧ d ≠ c ∧ HasPathThrough P.intersectionGraph eliminated c d} =
        ((List.finRange n).toFinset.filter fun d =>
          (s.graph.entry c d && s.remaining.get d) = true : Finset (Fin n)) := by
    ext d
    rw [Finset.mem_coe, Finset.mem_filter, Bool.and_eq_true, h.remaining]
    by_cases hdc : d = c
    · simp [hdc, h.loopless c]
    · by_cases hd : d ∈ eliminated
      · simp [hd]
      · simp [hd, hdc, h.joined hc hd (Ne.symm hdc), hasPathThrough_iff_linked (Ne.symm hdc)]
  rw [reachableDegree, hneighbours, Set.ncard_coe_finset, (List.nodup_finRange n).card_eq_countP,
    degree]
  simp only [Bool.decide_eq_true]

theorem IsAfter.isLeast_of_next? (h : IsAfter P eliminated s) (hp : s.next? = some p) :
    IsLeast {c | c ∉ eliminated ∧ ∀ d ∉ eliminated,
      P.reachableDegree eliminated c ≤ P.reachableDegree eliminated d} p := by
  have hset : {c | c ∉ eliminated ∧ ∀ d ∉ eliminated,
        P.reachableDegree eliminated c ≤ P.reachableDegree eliminated d} =
      {c | s.remaining.get c = true ∧
        ∀ d, s.remaining.get d = true → s.degree c ≤ s.degree d} := by
    ext c
    simp only [Set.mem_ofPred_eq, h.remaining]
    refine and_congr_right fun hc => forall₂_congr fun d hd => ?_
    rw [h.degree_eq hc, h.degree_eq hd]
  rw [hset]
  exact Elimination.isLeast_of_next? hp

end Elimination

/-- Before step `k` of the ordering exactly the columns of the steps before it are eliminated. -/
theorem isAfter_foldl (P : Pattern m n) {k : ℕ} (hk : k ≤ n) :
    Elimination.IsAfter P (columnsBefore P.minimumDegree k)
      ((buildTo (fun k eliminated =>
        ((eliminated.foldl Elimination.eliminate (Elimination.start P)).next?).getD k) k hk).foldl
          Elimination.eliminate (Elimination.start P)) := by
  induction k with
  | zero =>
    rw [columnsBefore_zero]
    exact Elimination.isAfter_start P
  | succ k ih =>
    have hnew := get_notMem_columnsBefore P.minimumDegree_injective ⟨k, hk⟩
    have hstep := (ih (Nat.le_of_succ_le hk)).eliminate hnew
    rw [← columnsBefore_succ] at hstep
    rw [buildTo, Vector.foldl_push]
    rwa [minimumDegree, get_build] at hstep

/-- The ordering takes every column once. At each step it takes the first of the remaining columns
that reach the fewest other remaining columns through the columns taken before. -/
theorem minimumDegree_greedy (P : Pattern m n) :
    Function.Bijective P.minimumDegree.get ∧
      ∀ k : Fin n, let before := columnsBefore P.minimumDegree k
        IsLeast {c | c ∉ before ∧ ∀ d ∉ before,
          P.reachableDegree before c ≤ P.reachableDegree before d} (P.minimumDegree.get k) := by
  refine ⟨ColumnOrder.apply_bijective .minimumDegree P, fun k => ?_⟩
  have hafter := P.isAfter_foldl k.isLt.le
  have hk := get_notMem_columnsBefore P.minimumDegree_injective k
  obtain ⟨p, hp, -⟩ := Elimination.exists_next? ((hafter.remaining _).mpr hk)
  have hget : P.minimumDegree.get k = p := by
    rw [minimumDegree, get_build, hp, Option.getD_some]
  rw [hget]
  exact hafter.isLeast_of_next? hp

end QuadraticProgram.Pattern
