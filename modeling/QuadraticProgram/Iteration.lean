import QuadraticProgram.Factorization
import QuadraticProgram.Kkt
import QuadraticProgram.StepLength

/-!
# Iterations and runs

An iteration changes the optimality system for the current active set, factorizes it, solves for the
Newton step, and goes as far along it as the entries allow. The entry in the way changes its status.
A step that nothing limits is the last one. When the system is singular or a proposed length is
invalid the iterate stays where it was. A run iterates until a state is done or the budget is spent.
The attempts made along the way can be listed, which is what a report of the run is written from.
-/
namespace QuadraticProgram

variable {α β : Type} [Scalar α] [Bound α β] {n m : Nat}

inductive Outcome where
  | success
  | unfinished
  | singular
  | invalidStep
  deriving DecidableEq, Repr

structure State (α : Type) (n m : Nat) where
  /-- The values of the entries: the point `x`, then `A x`. -/
  value : Vector α (n + m)
  active : ActiveSet α (n + m)
  objective : α
  length : α
  index : Option (Fin (n + m))
  kind : Option Blocking
  iteration : Nat
  done : Bool
  outcome : Outcome

namespace State

def point (s : State α n m) : Vector α n := onVariables s.value

def start (P : Problem α β n m) (g : PrimalDual α n m) : State α n m :=
  let value := P.valuesAt g.point
  { value := value
    active := ActiveSet.seed P.lower P.upper value g.multiplier
    objective := P.objective g.point
    length := 0
    index := none
    kind := none
    iteration := 0
    done := false
    outcome := .unfinished }

end State

namespace Problem

/-- The directions that belong to a solution of the system. A held variable's multiplier moves
towards the value that balances the gradient after a full step; free entries keep theirs. -/
def direction (P : Problem α β n m) (value : Vector α (n + m)) (s : ActiveSet α (n + m))
    (z : Vector α (n + m)) : Direction α (n + m) :=
  let dx : Vector α n := onVariables z
  let dy : Vector α m := Vector.ofFn fun j =>
    if (s.status.get (j.natAdd n)).IsActive then z.get (j.natAdd n) else 0
  let target := P.gradient (Vector.ofFn fun i => value.get (i.castAdd m) + dx.get i)
    (Vector.ofFn fun j => s.multiplier.get (j.natAdd n) + dy.get j)
  { value := join dx (P.constraints.mulVec dx)
    multiplier := join
      (Vector.ofFn fun i =>
        if (s.status.get (i.castAdd m)).IsActive then
          -target.get i - s.multiplier.get (i.castAdd m)
        else 0)
      dy }

/-- The point after a step. A variable that reached a bound is put exactly onto it. -/
def pointAfter (P : Problem α β n m) (x dx : Vector α n) (limit : StepLimit α (n + m)) :
    Vector α n :=
  Vector.ofFn fun i =>
    if limit.index = some (i.castAdd m) then
      match limit.kind with
      | some .upperBound => Bound.toScalar (P.upper.get (i.castAdd m))
      | some .lowerBound => Bound.toScalar (P.lower.get (i.castAdd m))
      | _ => x.get i + limit.length * dx.get i
    else x.get i + limit.length * dx.get i

def activeAfter (P : Problem α β n m) (s : ActiveSet α (n + m)) (d : Vector α (n + m))
    (limit : StepLimit α (n + m)) : ActiveSet α (n + m) :=
  let moved : ActiveSet α (n + m) :=
    { s with
      multiplier := Vector.ofFn fun e => s.multiplier.get e + limit.length * d.get e }
  (moved.block limit.index limit.kind).followSigns P.lower P.upper

def advance (P : Problem α β n m) (s : State α n m) (d : Direction α (n + m))
    (limit : StepLimit α (n + m)) : State α n m :=
  let x := P.pointAfter s.point (onVariables d.value) limit
  { value := P.valuesAt x
    active := P.activeAfter s.active d.multiplier limit
    objective := P.objective x
    length := limit.length
    index := limit.index
    kind := limit.kind
    iteration := s.iteration + 1
    done := limit.index.isNone
    outcome := if limit.index.isNone then .success else s.outcome }

end Problem

structure Attempt (α : Type) (n m : Nat) where
  factorization : Factorization α (n + m)
  rightHandSide : Vector α (n + m)
  solution : Vector α (n + m)
  direction : Direction α (n + m)
  limit : StepLimit α (n + m)
  /-- The state after the step, whether the step may be taken or not. -/
  advanced : State α n m

def attempt (S : Analysis n m) (P : Problem α β n m) (s : State α n m) : Attempt α n m :=
  let factorization := S.factorize (S.modify (S.assemble P) s.active.status)
  let rightHandSide := P.rightHandSide s.value s.active
  let solution := factorization.solveTransposed rightHandSide
  let direction := P.direction s.value s.active solution
  let limit := stepLimit (candidates P.lower P.upper s.value s.active direction)
  { factorization := factorization
    rightHandSide := rightHandSide
    solution := solution
    direction := direction
    limit := limit
    advanced := P.advance s direction limit }

namespace Attempt

def IsSingular (unit : α) (a : Attempt α n m) : Prop :=
  a.factorization.IsSingular unit ∨ ∃ e, Scalar.isFinite (a.solution.get e) = false

instance (unit : α) (a : Attempt α n m) : Decidable (a.IsSingular unit) := by
  unfold IsSingular
  infer_instance

def fail (s : State α n m) (outcome : Outcome) (index : Option (Fin (n + m))) (length : α) :
    State α n m :=
  { s with
    length := length
    index := index
    iteration := s.iteration + 1
    done := true
    outcome := outcome }

/-- The state after the iteration. A singular system is looked for before an invalid length. -/
def next (unit : α) (s : State α n m) (a : Attempt α n m) : State α n m :=
  if a.IsSingular unit then
    fail s .singular a.factorization.weakestColumn? a.limit.length
  else
    match a.limit.invalid with
    | some e =>
      fail s .invalidStep (some e) (((a.limit.candidates.get e).map Candidate.length).getD 0)
    | none => a.advanced

end Attempt

def iterate (unit : α) (S : Analysis n m) (P : Problem α β n m) (s : State α n m) : State α n m :=
  (attempt S P s).next unit s

def run (unit : α) (S : Analysis n m) (P : Problem α β n m) : Nat → State α n m → State α n m
  | 0, s => s
  | budget + 1, s => if s.done then s else run unit S P budget (iterate unit S P s)

def attempts (unit : α) (S : Analysis n m) (P : Problem α β n m) :
    Nat → State α n m → List (State α n m × Attempt α n m)
  | 0, _ => []
  | budget + 1, s =>
    if s.done then []
    else
      let a := attempt S P s
      (s, a) :: attempts unit S P budget (a.next unit s)

def solveFrom (unit : α) (S : Analysis n m) (P : Problem α β n m) (g : PrimalDual α n m)
    (budget : Nat) : State α n m :=
  run unit S P budget (State.start P g)

end QuadraticProgram
