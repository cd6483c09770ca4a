import QuadraticProgram.Analysis
import QuadraticProgram.Householder

/-!
# Orthogonal factorization and solves

A matrix with its columns in the analysed order is `Q R`, where `Q` is the product of the reflectors
and `R` is triangular. Solving with the matrix or with its transpose takes one substitution and one
pass over the reflectors. A vanishing pivot is reported and never repaired.
-/
namespace QuadraticProgram

variable {α : Type} [Scalar α] {n m : Nat}

structure Factorization (α : Type) (n : Nat) where
  reflectors : Mat α n n
  triangle : Mat α n n
  beta : Vector α n
  order : Vector (Fin n) n

def Analysis.factorize (S : Analysis n m) (M : Mat α (n + m) (n + m)) :
    Factorization α (n + m) :=
  let packed := Packed.eliminate (M.permuteColumns S.order)
  { reflectors := S.reflectors.restrict packed.matrix
    triangle := S.triangle.restrict packed.matrix
    beta := packed.beta
    order := S.order }

/-- Solves a lower triangular system from the first row to the last. Each unknown is taken out of a
row in turn, and what remains is multiplied by the reciprocal of the diagonal entry. Entries above
the diagonal are not read. -/
def substitute (L : Fin n → Fin n → α) (b : Fin n → α) : Vector α n :=
  build fun k before =>
    let remainder := Fin.foldl k
      (fun c j => c - L k (j.castLE (Nat.le_of_lt k.isLt)) * before.get j) (b k)
    remainder * (1 / L k k)

def scatter (order : Vector (Fin n) n) (w : Vector α n) : Vector α n :=
  Fin.foldl n (fun z k => z.set (order.get k) (w.get k)) (Vector.ofFn fun _ => 0)

namespace Factorization

def pivotSize (F : Factorization α n) (k : Fin n) : α := Scalar.abs (F.triangle.entry k k)

/-- Pivots up to this size count as zero: `unit` is the relative precision of the arithmetic, and
the scale is the largest finite pivot. -/
def threshold (unit : α) (F : Factorization α n) : α :=
  (n : α) * unit *
    largest fun k => if Scalar.isFinite (F.pivotSize k) then F.pivotSize k else 0

def IsSingular (unit : α) (F : Factorization α n) : Prop :=
  (∃ k, Scalar.isFinite (F.pivotSize k) = false) ∨ ∃ k, F.pivotSize k ≤ F.threshold unit

instance (unit : α) (F : Factorization α n) : Decidable (F.IsSingular unit) := by
  unfold IsSingular
  infer_instance

/-- The step with the first of the smallest pivots. One that is not finite is smaller than all
others. -/
def weakestStep? (F : Factorization α n) : Option (Fin n) :=
  (firstLeast? Scalar.precedes fun k =>
    some (if Scalar.isFinite (F.pivotSize k) then F.pivotSize k else -1)).map Prod.fst

def weakestColumn? (F : Factorization α n) : Option (Fin n) := F.weakestStep?.map F.order.get

def reflector (F : Factorization α n) (k : Fin n) : Vector α n :=
  Vector.ofFn fun i => if i = k then 1 else if k < i then F.reflectors.entry i k else 0

@[simp] theorem get_reflector (F : Factorization α n) (k i : Fin n) :
    (F.reflector k).get i = if i = k then 1 else if k < i then F.reflectors.entry i k else 0 := by
  simp [reflector]

def reflectAt (F : Factorization α n) (k : Fin n) (x : Vector α n) : Vector α n :=
  reflect (F.beta.get k) (F.reflector k) x

def applyQt (F : Factorization α n) (x : Vector α n) : Vector α n :=
  sweep F.reflectAt x n (Nat.le_refl n)

def applyQ (F : Factorization α n) (x : Vector α n) : Vector α n :=
  sweep (fun k => F.reflectAt k.rev) x n (Nat.le_refl n)

def solveTransposed (F : Factorization α n) (b : Vector α n) : Vector α n :=
  F.applyQ (substitute (fun k j => F.triangle.entry j k) fun k => b.get (F.order.get k))

def solveTriangle (F : Factorization α n) (c : Vector α n) : Vector α n :=
  let reversed := substitute (fun k j => F.triangle.entry k.rev j.rev) fun k => c.get k.rev
  Vector.ofFn fun k => reversed.get k.rev

def solve (F : Factorization α n) (b : Vector α n) : Vector α n :=
  scatter F.order (F.solveTriangle (F.applyQt b))

end Factorization

end QuadraticProgram
