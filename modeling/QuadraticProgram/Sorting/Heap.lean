/-!
# Sorting with a heap

A stretch of an array is read as a binary tree, the children of position `p` at `2 p + 1` and
`2 p + 2`. In a heap no value comes before its children. The value that comes last is at the root of
a heap, is exchanged with the last one of the stretch, and the rest becomes a heap again. Values are
only ever exchanged, two at a time, so they stay the same with their multiplicities;
`IsRearrangement` carries that from one step to the next.
-/
namespace QuadraticProgram.Sorting

variable {τ : Type}

abbrev IsRearrangement (f : Array τ → Array τ) : Prop := ∀ xs, (f xs).Perm xs

def comesBefore (before : τ → τ → Bool) (xs : Array τ) (i j : Nat) : Bool :=
  match xs[i]?, xs[j]? with
  | some a, some b => before a b
  | _, _ => false

theorem swapIfInBounds_perm (i j : Nat) (xs : Array τ) : (xs.swapIfInBounds i j).Perm xs := by
  rw [Array.swapIfInBounds_def]
  split
  · split
    · exact Array.swap_perm _ _
    · exact Array.Perm.refl _
  · exact Array.Perm.refl _

variable (before : τ → τ → Bool)

/-- Takes a value down to a leaf of the tree with `count` values from `first` on, each time past the
child that comes later, and the right one of two equal children. -/
def sink (first count : Nat) (xs : Array τ) (hole : Nat) : Array τ × Nat :=
  if hole < (count - 1) / 2 then
    let right := 2 * hole + 2
    let child :=
      if comesBefore before xs (first + right) (first + (right - 1)) then right - 1 else right
    sink first count (xs.swapIfInBounds (first + hole) (first + child)) child
  else if 2 ≤ count ∧ count % 2 = 0 ∧ hole = (count - 2) / 2 then
    (xs.swapIfInBounds (first + hole) (first + (2 * hole + 1)), 2 * hole + 1)
  else (xs, hole)
termination_by count - hole
decreasing_by split <;> omega

def rise (first top : Nat) (xs : Array τ) (hole : Nat) : Array τ :=
  if top < hole then
    let parent := (hole - 1) / 2
    if comesBefore before xs (first + parent) (first + hole) then
      rise first top (xs.swapIfInBounds (first + parent) (first + hole)) parent
    else xs
  else xs
termination_by hole

def restore (first count top : Nat) (xs : Array τ) : Array τ :=
  let (xs, leaf) := sink before first count xs top
  rise before first top xs leaf

def makeHeap (first count : Nat) (xs : Array τ) : Array τ :=
  (List.range (count / 2)).foldr (restore before first count) xs

def heapSort (first count : Nat) (xs : Array τ) : Array τ :=
  (List.range (count - 1)).foldr
    (fun i xs => restore before first (i + 1) 0 (xs.swapIfInBounds first (first + (i + 1))))
    (makeHeap before first count xs)

theorem sink_perm (first count : Nat) (xs : Array τ) (hole : Nat) :
    (sink before first count xs hole).1.Perm xs := by
  fun_induction sink before first count xs hole with
  | case1 xs hole _ right child ih => exact ih.trans (swapIfInBounds_perm _ _ _)
  | case2 => exact swapIfInBounds_perm _ _ _
  | case3 => exact Array.Perm.refl _

theorem rise_perm (first top : Nat) (xs : Array τ) (hole : Nat) :
    (rise before first top xs hole).Perm xs := by
  fun_induction rise before first top xs hole with
  | case1 xs hole _ parent _ ih => exact ih.trans (swapIfInBounds_perm _ _ _)
  | case2 => exact Array.Perm.refl _
  | case3 => exact Array.Perm.refl _

theorem restore_perm (first count top : Nat) : IsRearrangement (restore before first count top) :=
  fun xs => (rise_perm before first top _ _).trans (sink_perm before first count xs top)

theorem foldr_perm {σ : Type} {f : σ → Array τ → Array τ} (h : ∀ s, IsRearrangement (f s))
    (steps : List σ) : IsRearrangement fun xs => steps.foldr f xs := by
  intro xs
  induction steps with
  | nil => exact Array.Perm.refl _
  | cons s steps ih => exact (h s _).trans ih

theorem heapSort_perm (first count : Nat) : IsRearrangement (heapSort before first count) :=
  fun xs =>
    (foldr_perm (fun _ ys => (restore_perm before _ _ _ _).trans (swapIfInBounds_perm _ _ ys))
      _ _).trans (foldr_perm (restore_perm before first count) _ xs)

end QuadraticProgram.Sorting
