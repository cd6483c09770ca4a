import Mathlib.Combinatorics.SimpleGraph.Paths
import QuadraticProgram.Pattern.Basic

/-! # Paths through eliminated columns

Two columns of a pattern are adjacent when some row has an entry in both. An elimination of columns
joins two others exactly when a path between them runs through eliminated columns only. Such paths
are counted by the relation `Linked`, which has no list of vertices in it: eliminating one more
column adds the links by way of that column and no others.
-/
namespace QuadraticProgram

section Links

variable {V : Type} {G : SimpleGraph V} {S T : Set V} {u v p : V}

def HasPathThrough (G : SimpleGraph V) (S : Set V) (u v : V) : Prop :=
  ∃ w : G.Walk u v, w.IsPath ∧ ∀ x ∈ w.support, x ≠ u → x ≠ v → x ∈ S

/-- The vertices are adjacent, or both are linked to one of the given vertices. -/
inductive Linked (G : SimpleGraph V) (S : Set V) : V → V → Prop
  | edge {u v : V} (h : G.Adj u v) : Linked G S u v
  | via {u x v : V} (hu : Linked G S u x) (hx : x ∈ S) (hv : Linked G S x v) : Linked G S u v

namespace Linked

theorem symm (h : Linked G S u v) : Linked G S v u := by
  induction h with
  | edge h => exact edge h.symm
  | via _ hx _ hu hv => exact via hv hx hu

theorem mono (hST : S ⊆ T) (h : Linked G S u v) : Linked G T u v := by
  induction h with
  | edge h => exact edge h
  | via _ hx _ hu hv => exact via hu (hST hx) hv

theorem empty_iff : Linked G ∅ u v ↔ G.Adj u v := by
  refine ⟨fun h => ?_, edge⟩
  cases h with
  | edge h => exact h
  | via _ hx _ => exact hx.elim

/-- One more vertex to go through adds the links by way of it. -/
theorem insert_iff :
    Linked G (insert p S) u v ↔ Linked G S u v ∨ Linked G S u p ∧ Linked G S p v := by
  constructor
  · intro h
    induction h with
    | edge h => exact Or.inl (edge h)
    | via _ hx _ hu hv =>
      rcases hx with rfl | hx
      · exact Or.inr ⟨hu.elim id And.left, hv.elim id And.right⟩
      · rcases hu with hu | ⟨hup, hpx⟩ <;> rcases hv with hv | ⟨hxp, hpv⟩
        · exact Or.inl (hu.via hx hv)
        · exact Or.inr ⟨hu.via hx hxp, hpv⟩
        · exact Or.inr ⟨hup, hpx.via hx hv⟩
        · exact Or.inr ⟨hup, hpv⟩
  · have hsubset : S ⊆ insert p S := Set.subset_insert p S
    rintro (h | ⟨hup, hpv⟩)
    · exact h.mono hsubset
    · exact (hup.mono hsubset).via (Set.mem_insert p S) (hpv.mono hsubset)

theorem exists_walk (h : Linked G S u v) :
    ∃ w : G.Walk u v, ∀ x ∈ w.support, x ≠ u → x ≠ v → x ∈ S := by
  induction h with
  | @edge u v h =>
    refine ⟨h.toWalk, fun x hx hu hv => ?_⟩
    have hends : x = u ∨ x = v := by simpa using hx
    exact absurd hends (not_or.mpr ⟨hu, hv⟩)
  | @via u x v _ hx _ hu hv =>
    obtain ⟨w, hw⟩ := hu
    obtain ⟨w', hw'⟩ := hv
    refine ⟨w.append w', fun y hy hyu hyv => ?_⟩
    by_cases hyx : y = x
    · exact hyx ▸ hx
    · rcases (SimpleGraph.Walk.mem_support_append_iff w w').mp hy with hy | hy
      · exact hw y hy hyu hyx
      · exact hw' y hy hyx hyv

/-- Between the first vertex of a path and its last one all are given ones. -/
theorem of_isPath {w : G.Walk u v} (hw : w.IsPath) (hne : u ≠ v)
    (hS : ∀ x ∈ w.support, x ≠ u → x ≠ v → x ∈ S) : Linked G S u v := by
  induction w with
  | nil => exact absurd rfl hne
  | @cons u x v h w ih =>
    obtain ⟨hpath, hu⟩ := (SimpleGraph.Walk.cons_isPath_iff h w).mp hw
    by_cases hxv : x = v
    · exact hxv ▸ edge h
    · have hx : x ∈ S := hS x (by simp) h.ne' hxv
      refine (edge h).via hx (ih hpath hxv fun y hy _ hyv => ?_)
      -- a path does not come back to its first vertex
      exact hS y (by simp [hy]) (fun hyu => hu (hyu ▸ hy)) hyv

end Linked

theorem hasPathThrough_iff_linked (hne : u ≠ v) : HasPathThrough G S u v ↔ Linked G S u v := by
  classical
  refine ⟨fun ⟨w, hw, hS⟩ => Linked.of_isPath hw hne hS, fun h => ?_⟩
  obtain ⟨w, hw⟩ := h.exists_walk
  exact ⟨w.bypass, w.bypass_isPath, fun x hx => hw x (w.support_bypass_subset_support hx)⟩

end Links

variable {m n : ℕ}

def columnsBefore (order : Vector (Fin n) n) (k : ℕ) : Set (Fin n) :=
  {c | ∃ j : Fin n, j.val < k ∧ order.get j = c}

theorem columnsBefore_zero (order : Vector (Fin n) n) : columnsBefore order 0 = ∅ := by
  simp [columnsBefore]

theorem columnsBefore_succ (order : Vector (Fin n) n) {k : ℕ} (hk : k < n) :
    columnsBefore order (k + 1) = insert (order.get ⟨k, hk⟩) (columnsBefore order k) := by
  ext c
  constructor
  · rintro ⟨j, hj, rfl⟩
    rcases lt_or_eq_of_lt_succ hk hj with hj | rfl
    · exact Or.inr ⟨j, hj, rfl⟩
    · exact Or.inl rfl
  · rintro (rfl | ⟨j, hj, rfl⟩)
    · exact ⟨⟨k, hk⟩, Nat.lt_succ_self k, rfl⟩
    · exact ⟨j, Nat.lt_succ_of_lt hj, rfl⟩

theorem get_notMem_columnsBefore {order : Vector (Fin n) n}
    (horder : Function.Injective order.get) (k : Fin n) :
    order.get k ∉ columnsBefore order k := by
  rintro ⟨j, hj, heq⟩
  exact absurd (congrArg Fin.val (horder heq)) hj.ne

namespace Pattern

def intersectionGraph (P : Pattern m n) : SimpleGraph (Fin n) where
  Adj c d := c ≠ d ∧ ∃ r, P.entry r c = true ∧ P.entry r d = true
  symm := ⟨fun _ _ ⟨hne, r, hc, hd⟩ => ⟨hne.symm, r, hd, hc⟩⟩
  loopless := ⟨fun _ h => h.1 rfl⟩

instance (P : Pattern m n) : DecidableRel P.intersectionGraph.Adj := fun c d =>
  inferInstanceAs (Decidable (c ≠ d ∧ ∃ r, P.entry r c = true ∧ P.entry r d = true))

theorem adj_intersectionGraph {P : Pattern m n} {c d : Fin n} :
    P.intersectionGraph.Adj c d ↔ c ≠ d ∧ ∃ r, P.entry r c = true ∧ P.entry r d = true := Iff.rfl

end Pattern

end QuadraticProgram
