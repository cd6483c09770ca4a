import QuadraticProgram.Problem.Basic

/-!
# Optimality residuals

How far a point with multipliers is from satisfying the conditions of optimality: the gradient of
the Lagrangian vanishes, the bounds hold, and a multiplier is negative only at a finite lower bound
that its entry lies on and positive only at such an upper bound. Each residual is a maximum norm.
-/
namespace QuadraticProgram

variable {α β : Type} [Scalar α] [Bound α β] {n m : Nat}

structure Residuals (α β : Type) where
  stationarity : α
  primal : β
  dualSign : α
  complementarity : α

def firstUnlessExceeded (a b : α) : α := if a < b then b else a

def signViolation (lb ub : β) (multiplier : α) : α :=
  max (Scalar.abs (if Bound.isFinite lb then 0 else min multiplier 0))
    (Scalar.abs (if Bound.isFinite ub then 0 else max multiplier 0))

/-- The products of the parts of a multiplier with the distances to the bounds they belong to. A
missing bound has no distance. -/
def complementarityGap (lb ub : β) (value multiplier : α) : α :=
  max
    (Scalar.abs ((if Bound.isFinite lb then value - Bound.toScalar lb else 0) * min multiplier 0))
    (Scalar.abs ((if Bound.isFinite ub then Bound.toScalar ub - value else 0) * max multiplier 0))

namespace Problem

def residuals (P : Problem α β n m) (g : PrimalDual α n m) : Residuals α β :=
  let value := P.valuesAt g.point
  let gradient := P.gradient g.point (onRows g.multiplier)
  let sign (e : Fin (n + m)) : α :=
    signViolation (P.lower.get e) (P.upper.get e) (g.multiplier.get e)
  let gap (e : Fin (n + m)) : α :=
    complementarityGap (P.lower.get e) (P.upper.get e) (value.get e) (g.multiplier.get e)
  { stationarity := largest fun i : Fin n =>
      Scalar.abs (gradient.get i + g.multiplier.get (i.castAdd m))
    primal := Fin.foldl (n + m)
      (fun worst e =>
        max (max worst (P.lower.get e - Bound.ofScalar (value.get e)))
          (Bound.ofScalar (value.get e) - P.upper.get e))
      (Bound.ofScalar 0)
    dualSign := firstUnlessExceeded (largest fun i : Fin n => sign (i.castAdd m))
      (largest fun j : Fin m => sign (j.natAdd n))
    complementarity := firstUnlessExceeded (largest fun i : Fin n => gap (i.castAdd m))
      (largest fun j : Fin m => gap (j.natAdd n)) }

def IsOptimal (P : Problem α β n m) (g : PrimalDual α n m) (tolerance : α) : Prop :=
  let r := P.residuals g
  r.stationarity ≤ tolerance ∧ r.primal ≤ Bound.ofScalar tolerance ∧ r.dualSign ≤ tolerance ∧
    r.complementarity ≤ tolerance

instance (P : Problem α β n m) (g : PrimalDual α n m) (tolerance : α) :
    Decidable (P.IsOptimal g tolerance) := by
  unfold IsOptimal
  infer_instance

end Problem

end QuadraticProgram
