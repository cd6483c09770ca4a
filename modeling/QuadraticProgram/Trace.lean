import QuadraticProgram.Iteration
import QuadraticProgram.Text.Quoted

/-!
# Reports of a run

A report says for each iteration where it starts, which entries are held, which step they allow,
which of them would limit it at its length, and what was decided: a full step, a bound removed, or a
bound added. How numbers are written, one by one or as the parts of a vector, is left open.
-/
namespace QuadraticProgram

variable {α β : Type} [Scalar α] [Bound α β] {n m : Nat}

inductive Decision (n m : Nat) where
  | fullStep
  | removed (e : Fin (n + m))
  | upperAdded (e : Fin (n + m))
  | lowerAdded (e : Fin (n + m))
  deriving DecidableEq

structure IterationReport (α : Type) (n m : Nat) where
  iteration : Nat
  value : Vector α (n + m)
  multiplier : Vector α (n + m)
  status : Vector Status (n + m)
  residual : Vector α (n + m)
  direction : Direction α (n + m)
  affected : List (Fin (n + m))
  length : α
  decision : Decision n m
  objective : α

def entryName (e : Fin (n + m)) : String :=
  Fin.addCases (fun i => s!"x[{i.val}]") (fun j => s!"g[{j.val}]") e

namespace Attempt

def decision (status : Vector Status (n + m)) (a : Attempt α n m) : Decision n m :=
  match a.limit.index with
  | none => .fullStep
  | some e =>
    if (status.get e).IsActive then .removed e
    else if a.limit.kind = some .upperBound then .upperAdded e
    else .lowerAdded e

def affected (a : Attempt α n m) : List (Fin (n + m)) :=
  if a.limit.index.isSome then
    (List.finRange (n + m)).filter fun e =>
      match a.limit.candidates.get e with
      | some c => decide (Same c.length a.limit.length)
      | none => false
  else []

def report (s : State α n m) (a : Attempt α n m) : IterationReport α n m :=
  { iteration := s.iteration
    value := s.value
    multiplier := s.active.multiplier
    status := s.active.status
    residual := Vector.ofFn fun e => -a.rightHandSide.get e
    direction := a.direction
    affected := a.affected
    length := a.limit.length
    decision := a.decision s.active.status
    objective := a.advanced.objective }

end Attempt

def Decision.text : Decision n m → String
  | fullStep => "Full step"
  | removed e => "Bound removed for " ++ entryName e
  | upperAdded e => "Upper bound added for " ++ entryName e
  | lowerAdded e => "Lower bound added for " ++ entryName e

/-- The lines of a report. No entry of a run is under a number of its own, so there are marks. -/
def IterationReport.lines (write : α → String) (writeAll : List α → String)
    (r : IterationReport α n m) : List String :=
  let onX {τ : Type} (v : Vector τ (n + m)) : List τ := (onVariables v).toList
  let onG {τ : Type} (v : Vector τ (n + m)) : List τ := (onRows v).toList
  let length := write r.length
  let objective := write r.objective
  [ s!"Iteration: {r.iteration}"
  , "Current x: " ++ writeAll (onX r.value)
  , "Current g: " ++ writeAll (onG r.value)
  , "Current lam_x: " ++ writeAll (onX r.multiplier)
  , "Current lam_a: " ++ writeAll (onG r.multiplier)
  , "Current active set (x): " ++ (Status.marks? (onX r.status)).getD ""
  , "Current active set (g): " ++ (Status.marks? (onG r.status)).getD ""
  , "Residual: " ++ writeAll r.residual.toList
  , "dx: " ++ writeAll (onX r.direction.value)
  , "dg: " ++ writeAll (onG r.direction.value)
  , "dlam_x: " ++ writeAll (onX r.direction.multiplier)
  , "dlam_a: " ++ writeAll (onG r.direction.multiplier)
  , "Affected bounds: " ++ Text.listing (r.affected.map Fin.val)
  , "tau: " ++ length
  , r.decision.text
  , s!"Iteration {r.iteration}: f={objective}, tau={length}" ]

def reports (unit : α) (S : Analysis n m) (P : Problem α β n m) (budget : Nat) (s : State α n m) :
    List (IterationReport α n m) :=
  (attempts unit S P budget s).map fun (s, a) => a.report s

end QuadraticProgram
