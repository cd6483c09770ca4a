import QuadraticProgram.Problem.Construction
import QuadraticProgram.Solver.Setting
import QuadraticProgram.Trace

/-!
# The solver

A solver is set up once for the shape and the sparsity of a problem and then solves every problem
that fits. A solve checks the settings of the call, the size and the pattern of the problem, and the
guess, in this order, before it runs. A run fails when its system is singular or when a step length
is invalid; both name the iteration and the entry. Spending the budget is no failure: the last
iterate is the answer, with a warning.
-/
namespace QuadraticProgram

inductive RunError (α : Type) where
  /-- The system has no reliable solution. The entry is the column of the smallest pivot, and a note
  replaces the usual wording. -/
  | singular (iteration index : Int) (note : Option String)
  | invalidStep (iteration index : Int) (length : α)
  deriving Repr

def RunError.message {α : Type} (write : α → String) : RunError α → String
  | singular iteration index none =>
    s!"KKT matrix is singular at iteration {iteration} (smallest pivot in column {index})"
  | singular _ _ (some note) => note
  | invalidStep iteration index length =>
    "Step length tau=" ++ write length ++
      s!" outside [0, 1] at entry {index} (iteration {iteration})"

inductive SolveError (α : Type) where
  | setting (cause : SettingError)
  | data (cause : DataError)
  | run (cause : RunError α)

structure Solver (n m : Nat) where
  analysis : Analysis n m
  settings : Settings

/-- A starting point and multipliers, each of which may be absent and is then zero. -/
structure GuessData (α : Type) where
  point : Option (Given α)
  variableMultipliers : Option (Given α)
  rowMultipliers : Option (Given α)

structure Answer (α : Type) (n m : Nat) where
  result : Except (SolveError α) (State α n m)
  log : List LogEntry
  reports : List (IterationReport α n m)

structure Job (α β : Type) [Bound α β] (n m : Nat) where
  problem : Problem α β n m
  guess : PrimalDual α n m
  settings : Settings

variable {α β : Type} [Scalar α] [Bound α β] {n m : Nat}

def ColumnOrder.named (name : String) : Except SettingError ColumnOrder :=
  match ColumnOrder.ofName? name with
  | some rule => pure rule
  | none => throw (.unknownOrdering name)

def Problem.cast {n' m' : Nat} (hn : n' = n) (hm : m' = m) (P : Problem α β n' m') :
    Problem α β n m :=
  hn ▸ hm ▸ P

omit [Scalar α] in
@[simp] theorem Problem.cast_rfl (P : Problem α β n m) : P.cast rfl rfl = P := rfl

def GuessData.toPrimalDual (d : GuessData α) (n m : Nat) :
    Except DataError (PrimalDual α n m) := do
  let part (name : String) (k : Nat) (given : Option (Given α)) :
      Except DataError (Vector α k) :=
    match given with
    | none => pure (Vector.ofFn fun _ => 0)
    | some given => vectorOf name k given
  let x ← part "x0" n d.point
  let u ← part "lam_x0" n d.variableMultipliers
  let y ← part "lam_a0" m d.rowMultipliers
  pure ⟨x, join u y⟩

def GuessData.ofPrimalDual (g : PrimalDual α n m) : GuessData α :=
  let given {k : Nat} (v : Vector α k) : Option (Given α) :=
    some (.ok ⟨[k], v.cast (by simp)⟩)
  { point := given g.point
    variableMultipliers := given (onVariables g.multiplier)
    rowMultipliers := given (onRows g.multiplier) }

def State.primalDual (s : State α n m) : PrimalDual α n m := ⟨s.point, s.active.multiplier⟩

namespace Solver

def create (P : Problem α β n m) (ordering : String) (budget : Int) (verbose : Bool) :
    Except SettingError (Solver n m) := do
  let rule ← ColumnOrder.named ordering
  let settings ← Settings.create budget verbose
  pure ⟨P.analyze rule, settings⟩

def accept (solver : Solver n m) (Q : SizedProblem α β) : Except DataError (Problem α β n m) :=
  if h : Q.n = n ∧ Q.m = m then
    let P := Q.problem.cast h.1 h.2
    if solver.analysis.hessian.Misses P.hessian ∨
        solver.analysis.constraints.Misses P.constraints then
      throw .outsidePattern
    else pure P
  else throw (.size Q.n Q.m n m)

def prepare (solver : Solver n m) (Q : SizedProblem α β) (guess : GuessData α)
    (options : List (String × SettingValue)) : Except (SolveError α) (Job α β n m) := do
  let settings ← (solver.settings.setAll options).mapError .setting
  let P ← (solver.accept Q).mapError .data
  let g ← (guess.toPrimalDual n m).mapError .data
  pure ⟨P, g, settings⟩

def blamed (index : Option (Fin (n + m))) : Int :=
  match index with
  | some e => e.val
  | none => -1

def conclude (s : State α n m) : Except (SolveError α) (State α n m) :=
  match s.outcome with
  | .singular => throw (.run (.singular s.iteration (blamed s.index) none))
  | .invalidStep => throw (.run (.invalidStep s.iteration (blamed s.index) s.length))
  | .success => pure s
  | .unfinished => pure s

def warnings (s : State α n m) : List LogEntry :=
  if s.outcome = .unfinished then
    [⟨.warning, s!"Active-set solver stopped after {s.iteration} iterations without a full step"⟩]
  else []

def runJob (unit : α) (solver : Solver n m) (job : Job α β n m) : Answer α n m :=
  let s := solveFrom unit solver.analysis job.problem job.guess job.settings.budget
  { result := conclude s
    log := warnings s
    reports :=
      if job.settings.verbose then
        reports unit solver.analysis job.problem job.settings.budget
          (State.start job.problem job.guess)
      else [] }

def solve (unit : α) (solver : Solver n m) (Q : SizedProblem α β) (guess : GuessData α)
    (options : List (String × SettingValue)) : Answer α n m :=
  match solver.prepare Q guess options with
  | .error cause => ⟨.error cause, [], []⟩
  | .ok job => solver.runJob unit job

end Solver

end QuadraticProgram
