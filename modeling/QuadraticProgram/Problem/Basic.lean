import QuadraticProgram.Analysis
import QuadraticProgram.Entry

/-!
# Quadratic programs

Minimise `½ xᵀ H x + gᵀ x` with every variable and every row of `A x` between two bounds. Bounds may
be infinite, and entries whose bounds coincide are equalities.
-/
namespace QuadraticProgram

structure Problem (α β : Type) [Bound α β] (n m : Nat) where
  hessian : Mat α n n
  linear : Vector α n
  constraints : Mat α m n
  /-- Lower bounds of the variables, then of the rows. -/
  lower : Vector β (n + m)
  upper : Vector β (n + m)
  ordered : ∀ e, Bound.exceeds (lower.get e) (upper.get e) = false

structure PrimalDual (α : Type) (n m : Nat) where
  point : Vector α n
  multiplier : Vector α (n + m)

def PrimalDual.map {α α' : Type} {n m : Nat} (f : α → α') (g : PrimalDual α n m) :
    PrimalDual α' n m :=
  ⟨g.point.map f, g.multiplier.map f⟩

def Problem.map {α β α' β' : Type} [Bound α β] [Bound α' β'] {n m : Nat} (f : α → α')
    (f' : β → β') (h : ∀ a b, Bound.exceeds (f' a) (f' b) = Bound.exceeds a b)
    (P : Problem α β n m) : Problem α' β' n m :=
  { hessian := P.hessian.map f
    linear := P.linear.map f
    constraints := P.constraints.map f
    lower := P.lower.map f'
    upper := P.upper.map f'
    ordered := fun e => by simpa [h] using P.ordered e }

namespace Problem

variable {α β : Type} [Scalar α] [Bound α β] {n m : Nat}

abbrev IsEquality (P : Problem α β n m) (e : Fin (n + m)) : Prop :=
  Same (P.lower.get e) (P.upper.get e)

def objective (P : Problem α β n m) (x : Vector α n) : α :=
  Scalar.half * dot x (P.hessian.mulVec x) + dot P.linear x

/-- The values of all entries at a point: the point itself, then `A x`. -/
def valuesAt (P : Problem α β n m) (x : Vector α n) : Vector α (n + m) :=
  join x (P.constraints.mulVec x)

theorem onVariables_valuesAt (P : Problem α β n m) (x : Vector α n) :
    onVariables (P.valuesAt x) = x :=
  onVariables_join _ _

/-- The gradient `H x + g + Aᵀ y` of the Lagrangian without the multipliers of the variables. -/
def gradient (P : Problem α β n m) (x : Vector α n) (y : Vector α m) : Vector α n :=
  let hx := P.hessian.mulVec x
  let ay := P.constraints.vecMul y
  Vector.ofFn fun i => hx.get i + P.linear.get i + ay.get i

@[simp] theorem get_gradient (P : Problem α β n m) (x : Vector α n) (y : Vector α m) (i : Fin n) :
    (P.gradient x y).get i =
      (P.hessian.mulVec x).get i + P.linear.get i + (P.constraints.vecMul y).get i := by
  simp [gradient]

def analyze (P : Problem α β n m) (rule : ColumnOrder) : Analysis n m :=
  QuadraticProgram.analyze (Pattern.nonzeros P.hessian) (Pattern.nonzeros P.constraints) rule

end Problem

end QuadraticProgram
