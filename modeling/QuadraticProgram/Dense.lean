import QuadraticProgram.Recurrence
import QuadraticProgram.Scalar

/-!
# Dense vectors and matrices

Sums, products and maxima over materialised data. Each operation has one equation for its entries,
and nothing else needs to unfold it. Sums run from the first term to the last.
-/
namespace QuadraticProgram

variable {α τ : Type} {m n : Nat}

section Reductions

variable [Scalar α]

def sum (f : Fin n → α) : α := Fin.foldl n (fun s i => s + f i) 0

def largest (f : Fin n → α) : α := Fin.foldl n (fun s i => max s (f i)) 0

def dot (u v : Vector α n) : α := sum fun i => u.get i * v.get i

theorem sum_zero (f : Fin 0 → α) : sum f = 0 := by simp [sum]

theorem sum_succ (f : Fin (n + 1) → α) :
    sum f = sum (fun i : Fin n => f i.castSucc) + f (Fin.last n) := by
  simp [sum, Fin.foldl_succ_last]

theorem largest_zero (f : Fin 0 → α) : largest f = 0 := by simp [largest]

theorem largest_succ (f : Fin (n + 1) → α) :
    largest f = max (largest fun i : Fin n => f i.castSucc) (f (Fin.last n)) := by
  simp [largest, Fin.foldl_succ_last]

def norm (f : Fin n → α) : α := Scalar.length (List.ofFn f)

end Reductions

structure Mat (τ : Type) (m n : Nat) where
  rows : Vector (Vector τ n) m

namespace Mat

def ofFn (f : Fin m → Fin n → τ) : Mat τ m n := ⟨Vector.ofFn fun i => Vector.ofFn (f i)⟩

def entry (M : Mat τ m n) (i : Fin m) (j : Fin n) : τ := (M.rows.get i).get j

@[simp] theorem entry_ofFn (f : Fin m → Fin n → τ) (i : Fin m) (j : Fin n) :
    (ofFn f).entry i j = f i j := by
  simp [ofFn, entry]

theorem ext_entry {M M' : Mat τ m n} (h : ∀ i j, M.entry i j = M'.entry i j) : M = M' := by
  obtain ⟨rows⟩ := M
  obtain ⟨rows'⟩ := M'
  congr 1
  exact vector_ext fun i => vector_ext fun j => h i j

def column (M : Mat τ m n) (j : Fin n) : Vector τ m := Vector.ofFn fun i => M.entry i j

@[simp] theorem get_column (M : Mat τ m n) (j : Fin n) (i : Fin m) :
    (M.column j).get i = M.entry i j := by
  simp [column]

def map {υ : Type} (f : τ → υ) (M : Mat τ m n) : Mat υ m n := ⟨M.rows.map (·.map f)⟩

@[simp] theorem entry_map {υ : Type} (f : τ → υ) (M : Mat τ m n) (i : Fin m) (j : Fin n) :
    (M.map f).entry i j = f (M.entry i j) := by
  simp [map, entry]

def transpose (M : Mat τ m n) : Mat τ n m := ofFn fun i j => M.entry j i

@[simp] theorem entry_transpose (M : Mat τ m n) (i : Fin n) (j : Fin m) :
    M.transpose.entry i j = M.entry j i := by
  simp [transpose]

/-- The matrix with its columns in another order: column `k` is the old column `order k`. -/
def permuteColumns (M : Mat τ m n) (order : Vector (Fin n) n) : Mat τ m n :=
  ofFn fun i k => M.entry i (order.get k)

@[simp] theorem entry_permuteColumns (M : Mat τ m n) (order : Vector (Fin n) n) (i : Fin m)
    (k : Fin n) : (M.permuteColumns order).entry i k = M.entry i (order.get k) := by
  simp [permuteColumns]

/-- The symmetric arrangement `[[H, Aᵀ], [A, c]]` with a constant lower right block. -/
def bordered (H : Mat τ n n) (A : Mat τ m n) (c : τ) : Mat τ (n + m) (n + m) :=
  ofFn fun p q =>
    Fin.addCases
      (fun i => Fin.addCases (fun i' => H.entry i i') (fun j => A.entry j i) q)
      (fun j => Fin.addCases (fun i => A.entry j i) (fun _ => c) q) p

section Bordered

variable (H : Mat τ n n) (A : Mat τ m n) (c : τ)

@[simp] theorem entry_bordered_castAdd_castAdd (i i' : Fin n) :
    (bordered H A c).entry (i.castAdd m) (i'.castAdd m) = H.entry i i' := by
  simp [bordered]

@[simp] theorem entry_bordered_castAdd_natAdd (i : Fin n) (j : Fin m) :
    (bordered H A c).entry (i.castAdd m) (j.natAdd n) = A.entry j i := by
  simp [bordered]

@[simp] theorem entry_bordered_natAdd_castAdd (j : Fin m) (i : Fin n) :
    (bordered H A c).entry (j.natAdd n) (i.castAdd m) = A.entry j i := by
  simp [bordered]

@[simp] theorem entry_bordered_natAdd_natAdd (j j' : Fin m) :
    (bordered H A c).entry (j.natAdd n) (j'.natAdd n) = c := by
  simp [bordered]

end Bordered

section Products

variable [Scalar α]

def mulVec (M : Mat α m n) (v : Vector α n) : Vector α m :=
  Vector.ofFn fun i => dot (M.rows.get i) v

theorem get_mulVec (M : Mat α m n) (v : Vector α n) (i : Fin m) :
    (M.mulVec v).get i = sum fun j => M.entry i j * v.get j := by
  simp [mulVec, dot, entry]

def vecMul (M : Mat α m n) (v : Vector α m) : Vector α n :=
  Vector.ofFn fun j => sum fun i => M.entry i j * v.get i

theorem get_vecMul (M : Mat α m n) (v : Vector α m) (j : Fin n) :
    (M.vecMul v).get j = sum fun i => M.entry i j * v.get i := by
  simp [vecMul]

end Products

end Mat

end QuadraticProgram
