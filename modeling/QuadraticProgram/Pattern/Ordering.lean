import QuadraticProgram.Pattern.Basic

/-!
# Greedy minimum-degree ordering

Columns of a pattern are joined when some row has an entry in both. Eliminating a column joins its
remaining neighbours to each other. The ordering eliminates, at every step, the first of the
remaining columns that have the fewest remaining neighbours.
-/
namespace QuadraticProgram.Pattern

variable {m n : Nat}

def columnGraph (P : Pattern m n) : Pattern n n :=
  Mat.ofFn fun i j => decide (i ≠ j ∧ ∃ r, P.entry r i = true ∧ P.entry r j = true)

@[simp] theorem entry_columnGraph (P : Pattern m n) (i j : Fin n) :
    P.columnGraph.entry i j = decide (i ≠ j ∧ ∃ r, P.entry r i = true ∧ P.entry r j = true) := by
  simp [columnGraph]

structure Elimination (n : Nat) where
  graph : Pattern n n
  remaining : Vector Bool n

namespace Elimination

def start (P : Pattern m n) : Elimination n := ⟨P.columnGraph, Vector.ofFn fun _ => true⟩

def degree (s : Elimination n) (i : Fin n) : Nat :=
  (List.finRange n).countP fun j => s.graph.entry i j && s.remaining.get j

def next? (s : Elimination n) : Option (Fin n) :=
  (firstLeast? (fun a b : Nat => decide (a < b)) fun i =>
    if s.remaining.get i then some (s.degree i) else none).map Prod.fst

def eliminate (s : Elimination n) (p : Fin n) : Elimination n :=
  let remaining := Vector.ofFn fun i => s.remaining.get i && i != p
  let neighbour := Vector.ofFn fun i => s.graph.entry p i && remaining.get i
  { graph := Mat.ofFn fun i j =>
      s.graph.entry i j || neighbour.get i && neighbour.get j && i != j
    remaining := remaining }

@[simp] theorem get_remaining_eliminate (s : Elimination n) (p i : Fin n) :
    (s.eliminate p).remaining.get i = (s.remaining.get i && i != p) := by
  simp [eliminate]

@[simp] theorem entry_graph_eliminate (s : Elimination n) (p i j : Fin n) :
    (s.eliminate p).graph.entry i j =
      (s.graph.entry i j || (s.graph.entry p i && (s.remaining.get i && i != p)) &&
        (s.graph.entry p j && (s.remaining.get j && j != p)) && i != j) := by
  simp [eliminate]

end Elimination

/-- The greedy minimum-degree ordering of the columns. As long as columns remain one of them is
next, so the index of the step itself is never taken in its place. -/
def minimumDegree (P : Pattern m n) : Vector (Fin n) n :=
  build fun k eliminated =>
    ((eliminated.foldl Elimination.eliminate (Elimination.start P)).next?).getD k

end QuadraticProgram.Pattern
