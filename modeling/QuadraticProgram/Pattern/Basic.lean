import QuadraticProgram.Dense

/-!
# Sparsity patterns

A pattern marks the entries of a matrix that may be nonzero. The pattern of the optimality system
is the symmetric arrangement of the patterns of the Hessian and of the constraint rows, and its
padded form owns the whole diagonal.
-/
namespace QuadraticProgram

variable {α : Type} {m n : Nat}

/-- The entries of a matrix that may be nonzero. -/
abbrev Pattern (m n : Nat) := Mat Bool m n

namespace Pattern

def count (P : Pattern m n) : Nat :=
  ((List.finRange m).map fun i => (List.finRange n).countP fun j => P.entry i j).foldr
    (· + ·) 0

def symmetrize (P : Pattern n n) : Pattern n n := Mat.ofFn fun i j => P.entry i j || P.entry j i

@[simp] theorem entry_symmetrize (P : Pattern n n) (i j : Fin n) :
    P.symmetrize.entry i j = (P.entry i j || P.entry j i) := by
  simp [symmetrize]

def addDiagonal (P : Pattern n n) : Pattern n n := Mat.ofFn fun i j => P.entry i j || i == j

@[simp] theorem entry_addDiagonal (P : Pattern n n) (i j : Fin n) :
    P.addDiagonal.entry i j = (P.entry i j || i == j) := by
  simp [addDiagonal]

def kkt (h : Pattern n n) (a : Pattern m n) : Pattern (n + m) (n + m) :=
  Mat.bordered h.symmetrize a false

def strictLower (P : Pattern n n) : Pattern n n := Mat.ofFn fun i j => decide (j < i) && P.entry i j

@[simp] theorem entry_strictLower (P : Pattern n n) (i j : Fin n) :
    P.strictLower.entry i j = (decide (j < i) && P.entry i j) := by
  simp [strictLower]

def upper (P : Pattern n n) : Pattern n n := Mat.ofFn fun i j => decide (i ≤ j) && P.entry i j

@[simp] theorem entry_upper (P : Pattern n n) (i j : Fin n) :
    P.upper.entry i j = (decide (i ≤ j) && P.entry i j) := by
  simp [upper]

variable [Scalar α]

/-- The nonzero entries of a matrix. A value that is not a number counts as nonzero. -/
def nonzeros (M : Mat α m n) : Pattern m n := Mat.ofFn fun i j => !Scalar.isZero (M.entry i j)

@[simp] theorem entry_nonzeros (M : Mat α m n) (i : Fin m) (j : Fin n) :
    (nonzeros M).entry i j = !Scalar.isZero (M.entry i j) := by
  simp [nonzeros]

def restrict (P : Pattern m n) (M : Mat α m n) : Mat α m n :=
  Mat.ofFn fun i j => if P.entry i j then M.entry i j else 0

@[simp] theorem entry_restrict (P : Pattern m n) (M : Mat α m n) (i : Fin m) (j : Fin n) :
    (P.restrict M).entry i j = if P.entry i j then M.entry i j else 0 := by
  simp [restrict]

def Misses (P : Pattern m n) (M : Mat α m n) : Prop :=
  ∃ i j, (nonzeros M).entry i j = true ∧ P.entry i j = false

instance (P : Pattern m n) (M : Mat α m n) : Decidable (P.Misses M) := by
  unfold Misses
  infer_instance

end Pattern

end QuadraticProgram
