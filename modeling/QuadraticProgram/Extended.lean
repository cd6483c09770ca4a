import QuadraticProgram.Exact

/-!
# The exact reading with special values

Real numbers that do not round, with two infinities and a value that is not a number, as scalars and
as bounds. Operations on the special values follow the rules of floating point: a product of zero
and an infinity and a sum of opposite infinities are not numbers, a value that is not a number
compares with nothing, and the larger and the smaller of two values are not a number as soon as one
of them is not. There is one zero, which counts as positive.
-/
namespace QuadraticProgram

inductive Extended where
  | real (a : ℝ)
  | infinity (negative : Bool)
  | notANumber

namespace Extended

def isFinite : Extended → Bool
  | real _ => true
  | _ => false

noncomputable def isNegative : Extended → Bool
  | real a => decide (a < 0)
  | infinity negative => negative
  | notANumber => false

noncomputable def place? : Extended → Option EReal
  | real a => some a
  | infinity negative => some (if negative then ⊥ else ⊤)
  | notANumber => none

instance : LE Extended :=
  ⟨fun a b => ∃ x y, place? a = some x ∧ place? b = some y ∧ x ≤ y⟩

instance : LT Extended :=
  ⟨fun a b => ∃ x y, place? a = some x ∧ place? b = some y ∧ x < y⟩

noncomputable instance (a b : Extended) : Decidable (a ≤ b) := Classical.propDecidable _

noncomputable instance (a b : Extended) : Decidable (a < b) := Classical.propDecidable _

noncomputable instance : Max Extended where
  max a b := if ¬ a ≤ a then a else if ¬ b ≤ b then b else if a < b then b else a

noncomputable instance : Min Extended where
  min a b := if ¬ a ≤ a then a else if ¬ b ≤ b then b else if b < a then b else a

noncomputable instance : Neg Extended where
  neg
    | real a => real (-a)
    | infinity negative => infinity !negative
    | notANumber => notANumber

noncomputable instance : Add Extended where
  add
    | real a, real b => real (a + b)
    | real _, infinity s => infinity s
    | infinity s, real _ => infinity s
    | infinity s, infinity t => if s = t then infinity s else notANumber
    | _, _ => notANumber

noncomputable instance : Sub Extended where
  sub a b := a + -b

noncomputable instance : Mul Extended where
  mul
    | real a, real b => real (a * b)
    | real a, infinity s => if a = 0 then notANumber else infinity (decide (a < 0) != s)
    | infinity s, real b => if b = 0 then notANumber else infinity (s != decide (b < 0))
    | infinity s, infinity t => infinity (s != t)
    | _, _ => notANumber

noncomputable instance : Div Extended where
  div
    | real a, real b =>
      if b ≠ 0 then real (a / b) else if a = 0 then notANumber else infinity (decide (a < 0))
    | real _, infinity _ => real 0
    | infinity s, real b => infinity (s != decide (b < 0))
    | _, _ => notANumber

noncomputable def sqrt : Extended → Extended
  | real a => if a < 0 then notANumber else real (Real.sqrt a)
  | infinity negative => if negative then notANumber else infinity false
  | notANumber => notANumber

noncomputable def length (values : List Extended) : Extended :=
  sqrt (values.foldl (fun s a => s + a * a) (real 0))

noncomputable instance : Scalar Extended where
  zero := real 0
  one := real 1
  natCast k := real k
  decidableLT := inferInstance
  decidableLE := inferInstance
  sqrt := sqrt
  length := length
  tiny := real 0
  isZero
    | real a => decide (a = 0)
    | _ => false
  isFinite := isFinite
  isNegative := isNegative

noncomputable instance : Bound Extended Extended where
  decidableLE := inferInstance
  exceeds a b := decide (b < a)
  ofScalar := id
  toScalar := id
  isFinite := isFinite
  negInf := infinity true
  posInf := infinity false

end Extended

end QuadraticProgram
