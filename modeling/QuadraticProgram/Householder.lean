import QuadraticProgram.Dense

/-!
# Elimination by reflectors

Step `k` reflects the column below its leading entry to zero. Reflector `k` is `1 - βₖ vₖ vₖᵀ`, and
`vₖ` is zero above position `k` and one at position `k`. The triangular factor and the rest of the
reflector vectors are packed into one matrix, the vectors strictly below the diagonal. A column
whose part below the leading entry has no length is left alone, with `βₖ = 0`.

A reflection is carried out only where it can change something: in the rows down to the last nonzero
entry of its vector, and in the columns up to the last one with a nonzero entry in these rows. So a
value that is not a number does not spread beyond them.
-/
namespace QuadraticProgram

variable {α : Type} [Scalar α] {n : Nat}

def hypotenuse (a b : α) : α :=
  let w := max (Scalar.abs a) (Scalar.abs b)
  let z := min (Scalar.abs a) (Scalar.abs b)
  if Same z 0 ∨ Scalar.isFinite w = false then w else w * Scalar.sqrt (1 + z / w * (z / w))

structure Reflector (α : Type) (n : Nat) where
  pivot : α
  beta : α
  vector : Vector α n

namespace Reflector

def tailLength (c : Vector α n) (k : Fin n) : α := norm fun i => if k < i then c.get i else 0

/-- The reflector of a column as it stands. The pivot is as long as the column from its leading
entry down, and of the opposite sign to the leading entry. -/
def direct (c : Vector α n) (k : Fin n) : Reflector α n :=
  let a := c.get k
  let length := hypotenuse a (tailLength c k)
  let r := if Scalar.isNegative a then length else -length
  let scale := 1 / (a - r)
  { pivot := r
    beta := (r - a) / r
    vector := Vector.ofFn fun i => if i < k then 0 else if i = k then 1 else c.get i * scale }

/-- The reflector of a column. A column with a tiny pivot is enlarged for the computation. -/
def ofColumn (c : Vector α n) (k : Fin n) : Reflector α n :=
  let R := direct c k
  if Scalar.abs R.pivot < Scalar.tiny then
    let enlarged := direct (c.map fun a => a * (1 / Scalar.tiny)) k
    { enlarged with pivot := enlarged.pivot * Scalar.tiny }
  else R

/-- The rows that a reflection can change end here. -/
def depth (R : Reflector α n) : Nat := extent fun i => ¬ Same (R.vector.get i) 0

def width (R : Reflector α n) (M : Mat α n n) (k : Fin n) : Nat :=
  let depth := R.depth
  extent fun j => ∃ i, k ≤ i ∧ i.val < depth ∧ ¬ Same (M.entry i j) 0

def projections (R : Reflector α n) (M : Mat α n n) (k : Fin n) : Vector α n :=
  let depth := R.depth
  Vector.ofFn fun j => sum fun i =>
    if k ≤ i ∧ i.val < depth then M.entry i j * R.vector.get i else 0

def apply (R : Reflector α n) (M : Mat α n n) (k : Fin n) : Mat α n n :=
  let depth := R.depth
  let width := R.width M k
  let w : Vector α n := (R.projections M k).map fun p => -R.beta * p
  Mat.ofFn fun i j =>
    if k ≤ i ∧ i.val < depth ∧ j.val < width then M.entry i j + R.vector.get i * w.get j
    else M.entry i j

theorem get_vector_direct (c : Vector α n) (k i : Fin n) :
    (direct c k).vector.get i =
      if i < k then 0 else if i = k then 1
      else c.get i * (1 / (c.get k - (direct c k).pivot)) := by
  simp [direct]

@[simp] theorem get_projections (R : Reflector α n) (M : Mat α n n) (k j : Fin n) :
    (R.projections M k).get j =
      sum fun i => if k ≤ i ∧ i.val < R.depth then M.entry i j * R.vector.get i else 0 := by
  simp [projections]

@[simp] theorem entry_apply (R : Reflector α n) (M : Mat α n n) (k i j : Fin n) :
    (R.apply M k).entry i j =
      if k ≤ i ∧ i.val < R.depth ∧ j.val < R.width M k then
        M.entry i j + R.vector.get i * (-R.beta * (R.projections M k).get j)
      else M.entry i j := by
  simp only [apply, Mat.entry_ofFn, get_map]

end Reflector

structure Packed (α : Type) (n : Nat) where
  matrix : Mat α n n
  beta : Vector α n

namespace Packed

def start (M : Mat α n n) : Packed α n := ⟨M, Vector.ofFn fun _ => 0⟩

def step (k : Fin n) (s : Packed α n) : Packed α n :=
  let M := s.matrix
  let column := M.column k
  if Same (Reflector.tailLength column k) 0 then s
  else
    let R := Reflector.ofColumn column k
    let reflected := R.apply M k
    { matrix := Mat.ofFn fun i j =>
        if i < k ∨ j < k then M.entry i j
        else if j = k then if i = k then R.pivot else R.vector.get i
        else reflected.entry i j
      beta := s.beta.set k R.beta k.isLt }

def eliminateTo (M : Mat α n n) (k : Nat) (h : k ≤ n) : Packed α n := sweep step (start M) k h

def eliminate (M : Mat α n n) : Packed α n := eliminateTo M n (Nat.le_refl n)

end Packed

def reflect (b : α) (v : Vector α n) (x : Vector α n) : Vector α n :=
  let p := dot v x
  Vector.ofFn fun i => x.get i - b * v.get i * p

@[simp] theorem get_reflect (b : α) (v x : Vector α n) (i : Fin n) :
    (reflect b v x).get i = x.get i - b * v.get i * dot v x := by
  simp [reflect]

end QuadraticProgram
