import QuadraticProgram.Dense

/-!
# Dense arrays of any shape

An array has a list of dimensions and one entry for each position, the last dimension running
fastest. Arrays of one shape are stacked along a new first dimension, and an array of two
dimensions is a matrix.
-/
namespace QuadraticProgram

def positions (shape : List Nat) : Nat := shape.foldr (· * ·) 1

@[simp] theorem positions_nil : positions [] = 1 := rfl

@[simp] theorem positions_cons (d : Nat) (shape : List Nat) :
    positions (d :: shape) = d * positions shape := rfl

structure Tensor (τ : Type) where
  shape : List Nat
  entries : Vector τ (positions shape)

namespace Tensor

variable {τ : Type} {m n : Nat}

def single (a : τ) : Tensor τ := ⟨[], #v[a]⟩

def map {υ : Type} (f : τ → υ) (t : Tensor τ) : Tensor υ := ⟨t.shape, t.entries.map f⟩

def gather (shape : List Nat) :
    (ts : List (Tensor τ)) → Option (Vector τ (ts.length * positions shape))
  | [] => some (Vector.cast (by simp) #v[])
  | t :: ts =>
    if h : t.shape = shape then
      (gather shape ts).map fun rest =>
        Vector.cast (by simp [h, Nat.add_mul, Nat.add_comm]) (t.entries ++ rest)
    else none

/-- Arrays stacked along a new first dimension. Arrays of different shapes have no stack, and the
stack of none is an empty list of values. -/
def stack? : List (Tensor τ) → Option (Tensor τ)
  | [] => some ⟨[0], Vector.ofFn fun p => p.elim0⟩
  | t :: ts => (gather t.shape (t :: ts)).map fun entries => ⟨(t :: ts).length :: t.shape, entries⟩

def ofMat (M : Mat τ m n) : Tensor τ where
  shape := [m, n]
  entries := Vector.ofFn fun p =>
    have h : p.val < n * m := by
      have := p.isLt
      simpa [Nat.mul_comm] using this
    M.entry ⟨p.val / n, Nat.div_lt_of_lt_mul h⟩
      ⟨p.val % n, Nat.mod_lt _ (Nat.pos_of_mul_pos_right (Nat.zero_lt_of_lt h))⟩

def toMat? (t : Tensor τ) (m n : Nat) : Option (Mat τ m n) :=
  if h : t.shape = [m, n] then
    some <| Mat.ofFn fun i j => t.entries.get ⟨i.val * n + j.val, by
      have hi : (i.val + 1) * n ≤ m * n := Nat.mul_le_mul_right n i.isLt
      have hj := j.isLt
      rw [Nat.add_mul, Nat.one_mul] at hi
      simp only [h, positions_cons, positions_nil, Nat.mul_one]
      omega⟩
  else none

def flatten? (t : Tensor τ) (k : Nat) : Option (Vector τ k) :=
  if h : positions t.shape = k then some (t.entries.cast h) else none

end Tensor

end QuadraticProgram
