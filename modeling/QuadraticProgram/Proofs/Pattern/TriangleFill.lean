import QuadraticProgram.Proofs.Pattern.Fill
import QuadraticProgram.Proofs.Pattern.FillPath
import QuadraticProgram.Proofs.Pattern.Ordering

/-! # The fill of the triangular factor

Step `i` of the elimination takes in row `i` whether it holds an entry of the pivot's column or not.
So the rows have to be looked at with their pivots entered. Then, at every step, the columns that
still meet in a row are linked through the columns taken before, and an entry of the triangular
factor stands for a path through those. Where the pattern has the entries of the pivots already, as
it has in the natural order, this is a path in its own column intersection graph.
-/
namespace QuadraticProgram

variable {m n : ℕ}

namespace Pattern

/-- The pattern with an entry for the pivot in every row up to `k`. -/
def withPivots (P : Pattern n n) (order : Vector (Fin n) n) (k : Fin n) : Pattern n n :=
  Mat.ofFn fun r c => P.entry r c || decide (r ≤ k) && c == order.get r

theorem entry_withPivots (P : Pattern n n) (order : Vector (Fin n) n) (k r c : Fin n) :
    (P.withPivots order k).entry r c = true ↔
      P.entry r c = true ∨ r ≤ k ∧ c = order.get r := by
  simp [withPivots]

theorem withPivots_eq {P : Pattern n n} {order : Vector (Fin n) n} {k : Fin n}
    (h : ∀ r ≤ k, P.entry r (order.get r) = true) : P.withPivots order k = P := by
  refine Mat.ext_entry fun r c => Bool.eq_iff_iff.mpr ?_
  rw [entry_withPivots, or_iff_left_iff_imp]
  rintro ⟨hr, rfl⟩
  exact h r hr

section Steps

variable {G : SimpleGraph (Fin n)} {order : Vector (Fin n) n} {k i r c : Fin n} {W : Pattern n n}

def Meets (k : Fin n) (W : Pattern n n) (r c : Fin n) : Prop := W.entry r c = true ∨ r ≤ k ∧ c = r

/-- Before step `i` the remaining columns that meet in a remaining row are linked. -/
def RowsLinked (G : SimpleGraph (Fin n)) (order : Vector (Fin n) n) (k : Fin n) (i : ℕ)
    (W : Pattern n n) : Prop :=
  ∀ r c d : Fin n, i ≤ r.val → i ≤ c.val → i ≤ d.val → c ≠ d → Meets k W r c → Meets k W r d →
    Linked G (columnsBefore order i) (order.get c) (order.get d)

/-- The pivot's column is linked to every later column of a row that its step reflects. -/
theorem RowsLinked.of_reflected (h : RowsLinked G order k i W) (hik : i ≤ k)
    (hr : (W.reflectedRows i).get r = true) (hic : i < c) (hc : Meets k W r c) :
    Linked G (columnsBefore order i) (order.get i) (order.get c) := by
  rcases (get_reflectedRows W i r).mp hr with rfl | ⟨hir, hri⟩
  · exact h r r c le_rfl le_rfl hic.le hic.ne (Or.inr ⟨hik, rfl⟩) hc
  · exact h r i c hir.le le_rfl hic.le hic.ne (Or.inl hri) hc

theorem RowsLinked.of_filled (h : RowsLinked G order k i W) (hik : i ≤ k) (hic : i < c)
    (hc : (W.filledColumns i (W.reflectedRows i)).get c = true) :
    Linked G (columnsBefore order i) (order.get i) (order.get c) := by
  rcases (get_filledColumns W i _ c).mp hc with rfl | ⟨-, r, hr, hrc⟩
  · exact absurd hic (lt_irrefl _)
  · exact h.of_reflected hik hr hic (Or.inl hrc)

theorem meets_fillStep (h : Meets k (fillStep i W) r c) :
    Meets k W r c ∨ (W.reflectedRows i).get r = true ∧
      (W.filledColumns i (W.reflectedRows i)).get c = true := by
  rcases h with h | h
  · exact ((entry_fillStep_iff i W r c).mp h).imp_left Or.inl
  · exact Or.inl (Or.inr h)

/-- One step: what meets in a reflected row is linked by way of the pivot's column, and the other
rows are as before. -/
theorem RowsLinked.fillStep (h : RowsLinked G order k i W) (hik : i ≤ k) :
    RowsLinked G order k (i + 1) (fillStep i W) := by
  intro r c d hr hc hd hne hrc hrd
  have hbefore : columnsBefore order (i + 1) = insert (order.get i) (columnsBefore order i) :=
    columnsBefore_succ order i.isLt
  rw [hbefore, Linked.insert_iff]
  by_cases hreflected : (W.reflectedRows i).get r = true
  · have hpivot : ∀ {c : Fin n}, i < c → Meets k (Pattern.fillStep i W) r c →
        Linked G (columnsBefore order i) (order.get i) (order.get c) := by
      intro c hic hc
      rcases meets_fillStep hc with hc | ⟨-, hc⟩
      · exact h.of_reflected hik hreflected hic hc
      · exact h.of_filled hik hic hc
    exact Or.inr ⟨(hpivot hc hrc).symm, hpivot hd hrd⟩
  · have hkept : ∀ {c : Fin n}, Meets k (Pattern.fillStep i W) r c → Meets k W r c := fun hc =>
      (meets_fillStep hc).resolve_right fun hfilled => hreflected hfilled.1
    exact Or.inl (h r c d (Nat.le_of_succ_le hr) (Nat.le_of_succ_le hc) (Nat.le_of_succ_le hd) hne
      (hkept hrc) (hkept hrd))

end Steps

section Run

variable (P : Pattern n n) {order : Vector (Fin n) n}

/-- Up to step `k` every row is linked in the graph of the pattern with the pivots up to `k`. -/
theorem rowsLinked_fillTo (horder : Function.Injective order.get) (k : Fin n) {i : ℕ}
    (hik : i ≤ k.val) :
    RowsLinked (P.withPivots order k).intersectionGraph order k i
      (P.fillTo order i (hik.trans k.isLt.le)) := by
  induction i with
  | zero =>
    intro r c d _ _ _ hne hrc hrd
    have hentry : ∀ {c : Fin n}, Meets k (P.permuteColumns order) r c →
        (P.withPivots order k).entry r (order.get c) = true := by
      intro c hc
      rw [Meets, Mat.entry_permuteColumns] at hc
      exact (entry_withPivots P order k r _).mpr
        (hc.imp_right fun ⟨hr, hcr⟩ => ⟨hr, congrArg order.get hcr⟩)
    exact Linked.edge ⟨horder.ne hne, r, hentry hrc, hentry hrd⟩
  | succ i ih =>
    have hi : i < k.val := hik
    exact (ih hi.le).fillStep (i := ⟨i, hi.trans k.isLt⟩) hi.le

/-- The steps after step `r` leave row `r` alone. -/
theorem entry_fillTo_of_lt (order : Vector (Fin n) n) (r c : Fin n) {k : ℕ} (hk : k ≤ n)
    (hr : r.val < k) :
    (P.fillTo order k hk).entry r c = (P.fillTo order (r + 1) r.isLt).entry r c := by
  induction k with
  | zero => exact absurd hr (Nat.not_lt_zero _)
  | succ k ih =>
    rcases Nat.lt_succ_iff_lt_or_eq.mp hr with hlt | rfl
    · rw [← ih (Nat.le_of_succ_le hk) hlt, Bool.eq_iff_iff, fillTo, sweep, entry_fillStep_iff]
      refine or_iff_left fun hfilled => ?_
      rcases (get_reflectedRows _ _ r).mp hfilled.1 with heq | ⟨hkr, -⟩
      · exact absurd (congrArg Fin.val heq) hlt.ne
      · exact absurd hlt (Nat.not_lt.mpr (Nat.le_of_lt hkr))
    · rfl

theorem linked_of_triangleFill (horder : Function.Injective order.get) {k j : Fin n} (hkj : k < j)
    (hfill : (P.triangleFill order).entry k j = true) :
    Linked (P.withPivots order k).intersectionGraph (columnsBefore order k) (order.get k)
      (order.get j) := by
  have hrows := P.rowsLinked_fillTo horder k le_rfl
  rw [triangleFill, entry_upper, Bool.and_eq_true, fill,
    entry_fillTo_of_lt P order k j (Nat.le_refl n) k.isLt] at hfill
  rcases (entry_fillStep_iff k _ k j).mp hfill.2 with hkept | ⟨-, hc⟩
  · exact hrows.of_reflected le_rfl ((get_reflectedRows _ k k).mpr (Or.inl rfl)) hkj (Or.inl hkept)
  · exact hrows.of_filled le_rfl hkj hc

end Run

def noRows (n : ℕ) : Pattern 0 n := Mat.ofFn fun j _ => j.elim0

def innerFirst : Pattern 4 4 :=
  Mat.ofFn fun i j => decide ((i.val, j.val) ∈ [(0, 1), (0, 2), (1, 3)])

/-- Two variables that depend on each other, and a third one by itself. -/
def pairAndSingle : Pattern 3 3 := Mat.ofFn fun i j => decide (i = j ∨ i.val < 2 ∧ j.val < 2)

end Pattern

open Pattern

/-- An entry of the triangular factor stands for a path through the columns taken before its row, in
the column intersection graph of the padded pattern with the pivots of the rows up to that one.
Where these have their pivots anyway, and so always in the natural order, the path is one of the
padded pattern. -/
theorem triangle_path (h : Pattern n n) (a : Pattern m n) (rule : ColumnOrder) {k j : Fin (n + m)}
    (hkj : k < j) (hfill : (analyze h a rule).triangle.entry k j = true) :
    let S := analyze h a rule
    let Joined (K : Pattern (n + m) (n + m)) : Prop :=
      HasPathThrough K.intersectionGraph (columnsBefore S.order k) (S.order.get k) (S.order.get j)
    Joined (S.padded.withPivots S.order k) ∧
      ((rule = .natural ∨ ∀ i ≤ k, S.padded.entry i (S.order.get i) = true) → Joined S.padded) := by
  intro S Joined
  have horder : Function.Injective S.order.get := (rule.apply_bijective S.padded).injective
  have hpath : Joined (S.padded.withPivots S.order k) :=
    (hasPathThrough_iff_linked (horder.ne hkj.ne)).mpr
      (S.padded.linked_of_triangleFill horder hkj hfill)
  refine ⟨hpath, fun hpivots => ?_⟩
  have hpivot : ∀ i ≤ k, S.padded.entry i (S.order.get i) = true := by
    rcases hpivots with rfl | hpivots
    · intro i _
      have hget : S.order.get i = i := get_ofFn id i
      have hpadded : S.padded.entry i i = ((kkt h a).entry i i || i == i) := entry_addDiagonal _ i i
      rw [hget, hpadded, beq_self_eq_true, Bool.or_true]
    · exact hpivots
  rwa [withPivots_eq hpivot] at hpath

/-- The outer variables of four in a row are joined through the inner ones, and meet in no row. -/
theorem triangle_path_innerFirst :
    let S := analyze innerFirst (noRows 4) .natural
    (2 : Fin (4 + 0)) < 3 ∧ S.triangle.entry 2 3 = true ∧ ¬ S.padded.intersectionGraph.Adj 2 3 ∧
      HasPathThrough S.padded.intersectionGraph (columnsBefore S.order 2) (S.order.get 2)
        (S.order.get 3) := by
  have hlt : (2 : Fin (4 + 0)) < 3 := by decide
  have hfill : (analyze innerFirst (noRows 4) .natural).triangle.entry 2 3 = true := by decide
  exact ⟨hlt, hfill, by decide, (triangle_path _ _ _ hlt hfill).2 (Or.inl rfl)⟩

/-- With a single variable taken first, its pivot goes into a row of the pair. The factor then has
an entry for two columns that no path joins. -/
theorem exists_triangle_entry_without_path :
    let S := analyze pairAndSingle (noRows 3) .minimumDegree
    (0 : Fin (3 + 0)) < 1 ∧ S.triangle.entry 0 1 = true ∧
      ¬ HasPathThrough S.padded.intersectionGraph (columnsBefore S.order 0) (S.order.get 0)
        (S.order.get 1) := by
  intro S
  have hends : S.order.get 0 = 2 ∧ S.order.get 1 = 0 := by decide
  refine ⟨by decide, by decide, ?_⟩
  rw [hends.1, hends.2, hasPathThrough_iff_linked (by decide)]
  intro hlinked
  rw [columnsBefore_zero S.order] at hlinked
  exact absurd (Linked.empty_iff.mp hlinked) (by decide)

end QuadraticProgram
