import QuadraticProgram.Problem.Basic
import QuadraticProgram.Problem.Error
import QuadraticProgram.Tensor.Broadcast

/-!
# Problems from given data

A problem is made from arrays, some of which may be absent. The checks come in a fixed order and the
first failure is the answer: the linear term, the Hessian, the constraint rows, the lengths of the
bounds, and last that no lower bound exceeds its upper bound.
-/
namespace QuadraticProgram

variable {α β : Type} [Scalar α] [Bound α β]

abbrev Given (τ : Type) := Except DataError (Tensor τ)

/-- The data of a problem. Absent constraints are no rows, and absent bounds are infinite. -/
structure ProblemData (α β : Type) where
  hessian : Given α
  linear : Given α
  constraints : Option (Given α)
  lowerVariables : Option (Given β)
  upperVariables : Option (Given β)
  lowerRows : Option (Given β)
  upperRows : Option (Given β)

structure SizedProblem (α β : Type) [Bound α β] where
  n : Nat
  m : Nat
  problem : Problem α β n m
  n_pos : 0 < n

def vectorOf {τ : Type} (name : String) (k : Nat) (given : Given τ) :
    Except DataError (Vector τ k) := do
  let t ← given
  match t.flatten? k with
  | some v => pure v
  | none => throw (.length name (positions t.shape) k)

def boundVector (name : String) (k : Nat) (default : β) :
    Option (Given β) → Except DataError (Vector β k)
  | none => pure (Vector.ofFn fun _ => default)
  | some given => vectorOf name k given

def crossings (pairs : List (β × β)) : List Nat :=
  (pairs.zipIdx.filter fun (p, _) => Bound.exceeds p.1 p.2).map Prod.snd

/-- Refuses two arrays of bounds that cross somewhere. Arrays that cannot stand side by side have no
answer. -/
def checkBounds? (name : String) (lower upper : Tensor β) : Option (Except DataError Unit) :=
  (lower.pair? upper).map fun pairs =>
    match crossings pairs with
    | [] => pure ()
    | found => throw (.crossedBounds name found)

/-- The rows of the constraints. A list of one value for each variable is a single row. -/
def constraintRows (n : Nat) :
    Option (Given α) → Except DataError ((m : Nat) × Mat α m n)
  | none => pure ⟨0, Mat.ofFn fun _ _ => 0⟩
  | some given => do
    let t ← given
    match t.shape with
    | [m, _] =>
      match t.toMat? m n with
      | some A => pure ⟨m, A⟩
      | none => throw (.constraintShape t.shape n)
    | [_] =>
      match t.flatten? n with
      | some row => pure ⟨1, Mat.ofFn fun _ j => row.get j⟩
      | none => throw (.constraintShape t.shape n)
    | _ => throw (.constraintShape t.shape n)

omit [Scalar α] in
/-- Joined bounds do not cross when neither of their parts does. -/
theorem join_ordered {n m : Nat} {lbx ubx : Vector β n} {lba uba : Vector β m}
    (hx : ∀ i, Bound.exceeds (lbx.get i) (ubx.get i) = false)
    (ha : ∀ j, Bound.exceeds (lba.get j) (uba.get j) = false) (e : Fin (n + m)) :
    Bound.exceeds ((join lbx lba).get e) ((join ubx uba).get e) = false := by
  refine Fin.addCases (fun i => ?_) (fun j => ?_) e
  · simpa using hx i
  · simpa using ha j

def ProblemData.toProblem (d : ProblemData α β) : Except DataError (SizedProblem α β) := do
  let g ← d.linear
  let n := positions g.shape
  if hn : n = 0 then throw .noVariables
  else
    let H ← d.hessian
    match H.toMat? n n with
    | none => throw (.hessianShape H.shape n)
    | some hessian =>
      let ⟨m, constraints⟩ ← constraintRows n d.constraints
      let lbx ← boundVector "lbx" n Bound.negInf d.lowerVariables
      let ubx ← boundVector "ubx" n Bound.posInf d.upperVariables
      let lba ← boundVector "lba" m Bound.negInf d.lowerRows
      let uba ← boundVector "uba" m Bound.posInf d.upperRows
      if hx : ∀ i, Bound.exceeds (lbx.get i) (ubx.get i) = false then
        if ha : ∀ j, Bound.exceeds (lba.get j) (uba.get j) = false then
          pure
            { n := n
              m := m
              problem :=
                { hessian := hessian
                  linear := g.entries
                  constraints := constraints
                  lower := join lbx lba
                  upper := join ubx uba
                  ordered := join_ordered hx ha }
              n_pos := Nat.pos_of_ne_zero hn }
        else throw (.crossedBounds "A x" (crossings (lba.toList.zip uba.toList)))
      else throw (.crossedBounds "x" (crossings (lbx.toList.zip ubx.toList)))

end QuadraticProgram
