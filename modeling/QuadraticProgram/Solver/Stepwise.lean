import QuadraticProgram.Solver.Basic

/-!
# Stepwise minimisation

The same iteration, driven from outside: start, step, ask whether to stop, and report the last
state. The driver carries the point on its own, next to the state. A step that fails is refused and
leaves both as they were. A driver may bring a limit of its own on the number of steps.
-/
namespace QuadraticProgram

variable {α β : Type} [Scalar α] [Bound α β] {n m : Nat}

inductive StepRefusal where
  | singular
  | invalidStep
  deriving DecidableEq, Repr

def StepRefusal.message : StepRefusal → String
  | singular => "KKT matrix is singular for the current active set"
  | invalidStep => "Ratio test produced a step length outside [0, 1]"

def Outcome.refusal? : Outcome → Option StepRefusal
  | singular => some .singular
  | invalidStep => some .invalidStep
  | success => none
  | unfinished => none

inductive Verdict where
  /-- The run has converged, or nothing speaks against it so far. -/
  | successful
  | budgetSpent
  | interrupted
  deriving DecidableEq, Repr

structure Progress (α : Type) (n m : Nat) where
  point : Vector α n
  state : State α n m

def Progress.start (P : Problem α β n m) (g : PrimalDual α n m) : Progress α n m :=
  ⟨g.point, State.start P g⟩

def Progress.to (s : State α n m) : Except StepRefusal (Progress α n m) :=
  match s.outcome.refusal? with
  | some cause => throw cause
  | none => pure ⟨s.point, s⟩

structure Statistics (α : Type) (n m : Nat) where
  steps : Nat
  objective : α
  active : ActiveSet α (n + m)

def State.statistics (s : State α n m) : Statistics α n m := ⟨s.iteration, s.objective, s.active⟩

structure Ending (α : Type) (n m : Nat) where
  point : Vector α n
  statistics : Statistics α n m
  verdict : Verdict

namespace Solver

/-- One step, or the reason why it is refused. The point is that of the new state, whatever the
driver carried. -/
def step (unit : α) (solver : Solver n m) (P : Problem α β n m) (p : Progress α n m) :
    Except StepRefusal (Progress α n m) :=
  Progress.to (iterate unit solver.analysis P p.state)

def shouldStop (solver : Solver n m) (s : State α n m) : Bool :=
  s.done || decide (solver.settings.budget ≤ s.iteration)

/-- How the run stands. Convergence counts even on the last iteration of the budget. -/
def verdict (solver : Solver n m) (s : State α n m) : Verdict :=
  if s.outcome = .success then .successful
  else if solver.settings.budget ≤ s.iteration then .budgetSpent
  else .successful

def stepMany (unit : α) (solver : Solver n m) (P : Problem α β n m) :
    Nat → Progress α n m → Except StepRefusal (Progress α n m)
  | 0, p => pure p
  | limit + 1, p =>
    if solver.shouldStop p.state then pure p
    else (solver.step unit P p).bind (solver.stepMany unit P limit)

def ending (solver : Solver n m) (p : Progress α n m) : Ending α n m :=
  { point := p.point
    statistics := p.state.statistics
    verdict := if solver.shouldStop p.state then solver.verdict p.state else .interrupted }

def minimise (unit : α) (solver : Solver n m) (P : Problem α β n m) (g : PrimalDual α n m)
    (limit : Nat) : Except StepRefusal (Ending α n m) :=
  (solver.stepMany unit P limit (Progress.start P g)).map solver.ending

end Solver

end QuadraticProgram
