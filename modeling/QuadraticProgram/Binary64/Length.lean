import QuadraticProgram.Decimal.Fraction

/-!
# Lengths of lists of doubles

The Euclidean length of a list of doubles is the root of an exact sum of squares, rounded once. So
no square leaves the range before the root is taken, subnormal values count in full, and a single
value has its magnitude as its length.
-/
namespace QuadraticProgram.Binary64

open Decimal (Binary)

def infinity : Float := 1.0 / 0.0

def notANumber : Float := 0.0 / 0.0

/-- The double nearest to the root of `s`, times `2 ^ e`. The root is taken to sixty binary digits
and one more, which is set when the root goes on after them. -/
def scaledRoot (s : Nat) (e : Int) : Float :=
  let k : Int := 60 - (s.log2 / 2 : Nat)
  let (t, rest) := match k with
    | .ofNat k => (s * Nat.pow 4 k, 0)
    | .negSucc k => (s / Nat.pow 4 (k + 1), s % Nat.pow 4 (k + 1))
  let r := Nat.sqrt t
  let goesOn := r * r ≠ t ∨ rest ≠ 0
  (UInt64.ofNat (2 * r + if goesOn then 1 else 0)).toFloat.scaleB (e - k - 1)

def magnitudes (parts : List Binary) : List (Nat × Int) :=
  parts.filterMap fun
    | .finite _ m e => if m = 0 then none else some (m, e)
    | _ => none

/-- The sum of the squares of values `m * 2 ^ e`, in units of `4 ^ least`. No exponent is meant to
be below the least one. -/
def sumOfSquares (least : Int) (terms : List (Nat × Int)) : Nat :=
  (terms.map fun (m, e) => Nat.pow (m * Nat.pow 2 (e - least).toNat) 2).foldr (· + ·) 0

def length (values : List Float) : Float :=
  let parts := values.map Binary.ofFloat
  let isMissing : Binary → Bool
    | .notANumber => true
    | _ => false
  let isInfinite : Binary → Bool
    | .infinite _ => true
    | _ => false
  if parts.any isMissing then notANumber
  else if parts.any isInfinite then infinity
  else
    let terms := magnitudes parts
    let least := (terms.map Prod.snd).min?.getD 0
    scaledRoot (sumOfSquares least terms) least

end QuadraticProgram.Binary64
