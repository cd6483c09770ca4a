import QuadraticProgram.Sorting.Heap

/-!
# Introsort

Sixteen values or fewer are sorted stably: equal ones keep their order. A longer stretch is first
split about the median of three of its values, again and again until its parts are short, and a
stretch that does not get short in this way is sorted with a heap. Both may change the order of
equal values. The order of equal values is part of the result, because a rounded sum depends on the
order of its terms.
-/
namespace QuadraticProgram.Sorting

variable {τ : Type} (before : τ → τ → Bool)

def scanUp (pivot : τ) (xs : Array τ) (i : Nat) : Nat :=
  if h : i < xs.size then
    if before xs[i] pivot then scanUp pivot xs (i + 1) else i
  else i
termination_by xs.size - i

def scanDown (pivot : τ) (xs : Array τ) : Nat → Nat
  | 0 => 0
  | j + 1 =>
    match xs[j + 1]? with
    | some a => if before pivot a then scanDown pivot xs j else j + 1
    | none => j + 1

theorem scanDown_le (pivot : τ) (xs : Array τ) (j : Nat) : scanDown before pivot xs j ≤ j := by
  induction j with
  | zero => exact Nat.le_refl _
  | succ j ih =>
    unfold scanDown
    split
    · split
      · exact Nat.le_succ_of_le ih
      · exact Nat.le_refl _
    · exact Nat.le_refl _

/-- Splits the positions from `first` up to `last` into values that do not come after the pivot and
values that do not come before it, and gives the position between them. -/
def split (pivot : τ) (xs : Array τ) (first last : Nat) : Array τ × Nat :=
  let i := scanUp before pivot xs first
  let j := scanDown before pivot xs (last - 1)
  if i < j then split pivot (xs.swapIfInBounds i j) (i + 1) j else (xs, i)
termination_by last
decreasing_by
  have := scanDown_le before pivot xs (last - 1)
  omega

def medianPosition (xs : Array τ) (a b c : Nat) : Nat :=
  if comesBefore before xs a b then
    if comesBefore before xs b c then b else if comesBefore before xs a c then c else a
  else if comesBefore before xs a c then a
  else if comesBefore before xs b c then c else b

def splitAtMedian (xs : Array τ) (first last : Nat) : Array τ × Nat :=
  let middle := first + (last - first) / 2
  let xs := xs.swapIfInBounds first (medianPosition before xs (first + 1) middle (last - 1))
  match xs[first]? with
  | some pivot => split before pivot xs (first + 1) last
  | none => (xs, first)

/-- Splits a stretch until its parts have at most sixteen values, at most `depth` times in a row. -/
def arrange : (depth : Nat) → (first last : Nat) → Array τ → Array τ
  | 0, first, last, xs => if last - first ≤ 16 then xs else heapSort before first (last - first) xs
  | depth + 1, first, last, xs =>
    if last - first ≤ 16 then xs
    else
      let (xs, cut) := splitAtMedian before xs first last
      arrange depth first cut (arrange depth cut last xs)

def introsort (values : List τ) : List τ :=
  let depth := 2 * values.length.log2
  let arranged := arrange before depth 0 values.length values.toArray
  arranged.toList.mergeSort fun a b => !before b a

theorem split_perm (pivot : τ) (xs : Array τ) (first last : Nat) :
    (split before pivot xs first last).1.Perm xs := by
  fun_induction split before pivot xs first last with
  | case1 xs first last i j _ ih => exact ih.trans (swapIfInBounds_perm _ _ _)
  | case2 => exact Array.Perm.refl _

theorem splitAtMedian_perm (xs : Array τ) (first last : Nat) :
    (splitAtMedian before xs first last).1.Perm xs := by
  unfold splitAtMedian
  dsimp only
  split
  · exact (split_perm before _ _ _ _).trans (swapIfInBounds_perm _ _ _)
  · exact swapIfInBounds_perm _ _ _

theorem arrange_perm (depth first last : Nat) :
    IsRearrangement (arrange before depth first last) := by
  induction depth generalizing first last with
  | zero =>
    intro xs
    unfold arrange
    split
    · exact Array.Perm.refl _
    · exact heapSort_perm before _ _ xs
  | succ depth ih =>
    intro xs
    unfold arrange
    split
    · exact Array.Perm.refl _
    · exact (ih _ _ _).trans ((ih _ _ _).trans (splitAtMedian_perm before xs first last))

/-- Sorting changes the order of the values and nothing else. -/
theorem introsort_perm (values : List τ) : (introsort before values).Perm values :=
  (List.mergeSort_perm _ _).trans (arrange_perm before _ _ _ values.toArray).toList

/-- The result is in order, for every order that can be sorted by. -/
theorem pairwise_introsort (values : List τ)
    (trans : ∀ a b c, before b a = false → before c b = false → before c a = false)
    (asymm : ∀ a b, before a b = true → before b a = false) :
    (introsort before values).Pairwise fun a b => before b a = false := by
  have sorted : (introsort before values).Pairwise fun a b => (!before b a) = true := by
    refine List.pairwise_mergeSort (fun a b c h h' => ?_) (fun a b => ?_) _
    · simpa using trans a b c (by simpa using h) (by simpa using h')
    · cases h : before b a with
      | false => simp
      | true => simp [asymm b a h]
  exact sorted.imp fun h => by simpa using h

end QuadraticProgram.Sorting
