/-!
# Scalars and bounds

The arithmetic the solver runs on. `Scalar` lists the operations and asks for no law, so one
algorithm has a machine reading, where sums round and a value may fail to be a number, and an exact
reading, where they do not. `Bound` is the sort of the bounds, which may be infinite while the
scalars are not. Two tests look at values as they are given, before any arithmetic: they decide
which data are accepted and where a matrix has entries.
-/
namespace QuadraticProgram

/-- Ordered arithmetic with square roots. No law is assumed: a value may be unequal to itself. -/
class Scalar (α : Type) extends Add α, Sub α, Mul α, Div α, Neg α, Zero α, One α, NatCast α,
    LT α, LE α, Max α, Min α where
  decidableLT : DecidableLT α
  decidableLE : DecidableLE α
  sqrt : α → α
  /-- The Euclidean length of a list of values, in which no square leaves the range. -/
  length : List α → α
  /-- Values below this magnitude are enlarged before anything is divided by them. It is zero where
  a division loses nothing. -/
  tiny : α
  /-- The value as given is a zero. -/
  isZero : α → Bool
  isFinite : α → Bool
  /-- The sign as written, so that a zero may carry one. -/
  isNegative : α → Bool

instance Scalar.decideLT {α : Type} [Scalar α] (a b : α) : Decidable (a < b) :=
  Scalar.decidableLT a b

instance Scalar.decideLE {α : Type} [Scalar α] (a b : α) : Decidable (a ≤ b) :=
  Scalar.decidableLE a b

class Bound (α : outParam Type) (β : Type) extends LE β, Sub β, Max β, Min β where
  decidableLE : DecidableLE β
  exceeds : β → β → Bool
  ofScalar : α → β
  toScalar : β → α
  isFinite : β → Bool
  negInf : β
  posInf : β

instance Bound.decideLE {α β : Type} [Bound α β] (a b : β) : Decidable (a ≤ b) :=
  Bound.decidableLE a b

/-- Equality as the order sees it. A value that is not a number equals nothing, and zeros of
either sign are equal. -/
abbrev Same {τ : Type} [LE τ] (a b : τ) : Prop := a ≤ b ∧ b ≤ a

namespace Scalar

variable {α : Type} [Scalar α]

def abs (a : α) : α := max a (-a)

def half : α := 1 / (1 + 1)

abbrev IsNumber (a : α) : Prop := a ≤ a

/-- The order of a search for a minimum: a value that is not a number precedes all numbers. -/
def precedes (a b : α) : Bool := decide (a < b ∨ ¬ IsNumber a ∧ IsNumber b)

end Scalar

end QuadraticProgram
