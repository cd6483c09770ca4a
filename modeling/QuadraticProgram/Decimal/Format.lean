import QuadraticProgram.Decimal.Fraction

/-!
# Forms with a set number of digits

Fixed places, scientific notation, and the general form that chooses between them. The last section
holds the forms in which answers give their numbers.
-/
namespace QuadraticProgram.Decimal

def fixed (places : Nat) (q : Fraction) : String := pointed places (q.scale places).round

def significant (places : Nat) (q : Fraction) : Nat × Int :=
  let x := q.exponent
  let d := (q.scale (places - x)).round
  if d = Nat.pow 10 (places + 1) then (Nat.pow 10 places, x + 1) else (d, x)

def scientific (places : Nat) (q : Fraction) : String :=
  let (d, x) := significant places q
  pointed places d ++ exponentMark x

def trimZeros (text : String) : String :=
  if text.contains '.' then
    let kept := text.toList.reverse.dropWhile (· == '0')
    String.ofList ((if kept.head? = some '.' then kept.drop 1 else kept).reverse)
  else text

/-- Six significant digits without trailing zeros, in scientific notation when the leading digit is
below the fourth place or the digits end before the point. -/
def general (q : Fraction) : String :=
  let (d, x) := significant 5 q
  if -4 ≤ x ∧ x < 6 then trimZeros (fixed (5 - x).toNat q)
  else trimZeros (pointed 5 d) ++ exponentMark x

/-! ## Numbers in answers -/

/-- A result: nine places, in scientific notation from one thousand on. A result that rounds to zero
has no sign. -/
def rounded (a : Float) : String :=
  let text := if a.abs < 1000 then write (fixed 9) a else write (scientific 9) a
  if text = "-0.000000000" then "0.000000000" else text

def exact (a : Float) : String := write (scientific 16) (if a == 0 then 0 else a)

def brief (a : Float) : String := write general a

end QuadraticProgram.Decimal
