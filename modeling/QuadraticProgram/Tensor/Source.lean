import QuadraticProgram.Binary64.Basic
import QuadraticProgram.Decimal.Literal
import QuadraticProgram.Sorting.Introsort
import QuadraticProgram.Tensor.Basic

/-!
# Written arrays

An array may be written as one value, as nested lists, or as a sparse matrix that lists its nonzero
entries. Reading gives a dense array of doubles. Lists have to nest evenly and not too deep, texts
have to hold a number, and a missing value is not a number.
-/
namespace QuadraticProgram

inductive Value where
  | missing
  | integer (a : Int)
  | real (a : Float)
  | text (t : String)
  | other
  deriving Inhabited

namespace Value

def toFloat? : Value → Option Float
  | missing => some Binary64.notANumber
  | integer a => Decimal.ofInteger? a
  | real a => some a
  | text t => Decimal.real? t
  | other => none

end Value

inductive Source where
  | value (a : Value)
  | list (items : List Source)
  | sparse (rows columns : Nat) (entries : List (Int × Int × Value))
  deriving Inhabited

namespace Source

abbrev SparseRow := List (Nat × Float)

def SparseRow.isOrdered (row : SparseRow) : Bool :=
  (row.zip row.tail).all fun (p, q) => decide (p.1 ≤ q.1)

/-- The rows with their entries ordered by columns, all of them or none: rows that are ordered
already stay as they are. The order of entries at one position is the order they are added in. -/
def orderedRows {rows : Nat} (entries : Vector SparseRow rows) : Vector SparseRow rows :=
  if entries.toList.all SparseRow.isOrdered then entries
  else entries.map (Sorting.introsort fun p q => decide (p.1 < q.1))

def sparseMatrix? (rows columns : Nat) (entries : List (Int × Int × Value)) :
    Option (Mat Float rows columns) := do
  let entries ← entries.mapM fun (i, j, a) => do
    let a ← a.toFloat?
    if 0 ≤ i ∧ i < rows ∧ 0 ≤ j ∧ j < columns then some (i.toNat, j.toNat, a) else none
  let given : Vector SparseRow rows := Vector.ofFn fun i =>
    entries.filterMap fun (p, q, a) => if p = i.val then some (q, a) else none
  let ordered := orderedRows given
  some <| Mat.ofFn fun i j =>
    (ordered.get i).foldl (fun s (q, a) => if q = j.val then s + a else s) 0

mutual

def item? : Source → Option (Tensor Float)
  | .value a => a.toFloat?.map Tensor.single
  | .list items => (items? items).bind Tensor.stack?
  | .sparse .. => none

def items? : List Source → Option (List (Tensor Float))
  | [] => some []
  | s :: rest => (item? s).bind fun t => (items? rest).map (t :: ·)

end

def maxDimensions : Nat := 64

def tensor? : Source → Option (Tensor Float)
  | .sparse rows columns entries => (sparseMatrix? rows columns entries).map Tensor.ofMat
  | s => (item? s).filter fun t => decide (t.shape.length ≤ maxDimensions)

end Source

end QuadraticProgram
