import QuadraticProgram.ActiveSet
import QuadraticProgram.Problem.Basic

/-!
# The Newton system of an active set

The system is built from `K = [[H, Aᵀ], [A, 0]]`. The column of a variable held at a bound becomes a
unit vector and the column of a free row becomes a negated unit vector. Column `e` of the changed
matrix holds the coefficients of equation `e`, so the step solves the transposed system: held
entries move onto their bounds, free variables balance the gradient, and free rows keep their
multiplier.
-/
namespace QuadraticProgram

variable {α β : Type} [Scalar α] [Bound α β] {n m : Nat}

def Analysis.assemble (S : Analysis n m) (P : Problem α β n m) : Mat α (n + m) (n + m) :=
  S.kkt.restrict (Mat.bordered P.hessian P.constraints 0)

/-- The diagonal entry of a column that the active set replaces: one for a held variable, minus one
for a free row. -/
def pinned? (status : Vector Status (n + m)) (e : Fin (n + m)) : Option α :=
  Fin.addCases
    (fun i : Fin n => if (status.get (i.castAdd m)).IsActive then some 1 else none)
    (fun j : Fin m => if (status.get (j.natAdd n)).IsActive then none else some (-1)) e

@[simp] theorem pinned?_castAdd (status : Vector Status (n + m)) (i : Fin n) :
    (pinned? status (i.castAdd m) : Option α) =
      if (status.get (i.castAdd m)).IsActive then some 1 else none := by
  simp [pinned?]

@[simp] theorem pinned?_natAdd (status : Vector Status (n + m)) (j : Fin m) :
    (pinned? status (j.natAdd n) : Option α) =
      if (status.get (j.natAdd n)).IsActive then none else some (-1) := by
  simp [pinned?]

def Analysis.modify (S : Analysis n m) (K : Mat α (n + m) (n + m))
    (status : Vector Status (n + m)) : Mat α (n + m) (n + m) :=
  let pins : Vector (Option α) (n + m) := Vector.ofFn (pinned? status)
  Mat.ofFn fun p q =>
    match pins.get q with
    | some d => (if p = q then 1 else 0) * d
    | none => if S.padded.entry p q then K.entry p q else 0

theorem Analysis.entry_modify (S : Analysis n m) (K : Mat α (n + m) (n + m))
    (status : Vector Status (n + m)) (p q : Fin (n + m)) :
    (S.modify K status).entry p q =
      match (pinned? status q : Option α) with
      | some d => (if p = q then 1 else 0) * d
      | none => if S.padded.entry p q then K.entry p q else 0 := by
  simp [modify]

namespace Problem

def heldAt (P : Problem α β n m) (status : Vector Status (n + m)) : Vector α (n + m) :=
  ActiveSet.heldAt P.lower P.upper status

@[simp] theorem get_heldAt (P : Problem α β n m) (status : Vector Status (n + m))
    (e : Fin (n + m)) :
    (P.heldAt status).get e = (status.get e).heldAt (P.lower.get e) (P.upper.get e) := by
  simp [heldAt]

/-- How far each equation of the system is from holding: the distance of a held entry from its
bound, the gradient of a free variable, and nothing for a free row. -/
def residual (P : Problem α β n m) (value : Vector α (n + m)) (s : ActiveSet α (n + m)) :
    Vector α (n + m) :=
  let gradient := P.gradient (onVariables value) (onRows s.multiplier)
  let held := P.heldAt s.status
  let free : Vector α (n + m) := join gradient (Vector.ofFn fun _ => 0)
  Vector.ofFn fun e =>
    if (s.status.get e).IsActive then value.get e - held.get e else free.get e

def rightHandSide (P : Problem α β n m) (value : Vector α (n + m)) (s : ActiveSet α (n + m)) :
    Vector α (n + m) :=
  let r := P.residual value s
  Vector.ofFn fun e => -r.get e

theorem get_rightHandSide_of_isActive (P : Problem α β n m) (value : Vector α (n + m))
    (s : ActiveSet α (n + m)) (e : Fin (n + m)) (h : (s.status.get e).IsActive) :
    (P.rightHandSide value s).get e =
      -(value.get e - (s.status.get e).heldAt (P.lower.get e) (P.upper.get e)) := by
  simp [rightHandSide, residual, h]

theorem get_rightHandSide_castAdd (P : Problem α β n m) (value : Vector α (n + m))
    (s : ActiveSet α (n + m)) (i : Fin n) (h : s.status.get (i.castAdd m) = .inactive) :
    (P.rightHandSide value s).get (i.castAdd m) =
      -(P.gradient (onVariables value) (onRows s.multiplier)).get i := by
  simp [rightHandSide, residual, h]

theorem get_rightHandSide_natAdd (P : Problem α β n m) (value : Vector α (n + m))
    (s : ActiveSet α (n + m)) (j : Fin m) (h : s.status.get (j.natAdd n) = .inactive) :
    (P.rightHandSide value s).get (j.natAdd n) = -0 := by
  simp [rightHandSide, residual, h]

end Problem

end QuadraticProgram
