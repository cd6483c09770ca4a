/-!
# The exact values of doubles and their decimal digits

The exact arithmetic behind every number that is written. A fraction is scaled by powers of ten,
compared and rounded over the naturals, so a written digit is never the result of a rounded
operation. A half rounds to the even neighbour. A double is not a number, an infinity, or
`± m * 2 ^ e` with a natural `m`; the parts are read off its bits.
-/
namespace QuadraticProgram.Decimal

/-- A nonnegative fraction. The denominator is meant to be positive. -/
structure Fraction where
  num : Nat
  den : Nat

namespace Fraction

def ofBinary (m : Nat) (e : Int) : Fraction :=
  match e with
  | .ofNat k => ⟨m * Nat.pow 2 k, 1⟩
  | .negSucc k => ⟨m, Nat.pow 2 (k + 1)⟩

def scale (q : Fraction) (p : Int) : Fraction :=
  match p with
  | .ofNat k => ⟨q.num * Nat.pow 10 k, q.den⟩
  | .negSucc k => ⟨q.num, q.den * Nat.pow 10 (k + 1)⟩

def compare (q r : Fraction) : Ordering := Ord.compare (q.num * r.den) (r.num * q.den)

def floor (q : Fraction) : Nat := q.num / q.den

def round (q : Fraction) : Nat :=
  match Ord.compare (2 * (q.num % q.den)) q.den with
  | .lt => q.floor
  | .gt => q.floor + 1
  | .eq => q.floor + q.floor % 2

/-- The rounding errs by at most one half. -/
theorem round_near (q : Fraction) (h : 0 < q.den) :
    2 * q.num ≤ (2 * q.round + 1) * q.den ∧ 2 * (q.round * q.den) ≤ 2 * q.num + q.den := by
  have hdiv : q.den * q.floor + q.num % q.den = q.num := Nat.div_add_mod q.num q.den
  have hmod : q.num % q.den < q.den := Nat.mod_lt _ h
  have hcomm : q.floor * q.den = q.den * q.floor := Nat.mul_comm _ _
  have key : ∀ r, r = q.floor ∧ 2 * (q.num % q.den) ≤ q.den ∨
      r = q.floor + 1 ∧ q.den ≤ 2 * (q.num % q.den) →
      2 * q.num ≤ (2 * r + 1) * q.den ∧ 2 * (r * q.den) ≤ 2 * q.num + q.den := by
    rintro r (⟨rfl, hr⟩ | ⟨rfl, hr⟩)
    · constructor
      · rw [Nat.add_mul, Nat.mul_assoc]
        omega
      · omega
    · constructor
      · rw [Nat.add_mul, Nat.mul_assoc, Nat.add_mul]
        omega
      · rw [Nat.add_mul]
        omega
  apply key
  unfold round
  split
  · rename_i hc
    exact Or.inl ⟨rfl, Nat.le_of_lt (Nat.compare_eq_lt.mp hc)⟩
  · rename_i hc
    exact Or.inr ⟨rfl, Nat.le_of_lt (Nat.compare_eq_gt.mp hc)⟩
  · rename_i hc
    have heq := Nat.compare_eq_eq.mp hc
    rcases Nat.mod_two_eq_zero_or_one q.floor with h2 | h2
    · exact Or.inl ⟨by omega, by omega⟩
    · exact Or.inr ⟨by omega, by omega⟩

def exponent (q : Fraction) : Int :=
  if q.num = 0 then 0
  else
    let x : Int := (Nat.toDigits 10 q.num).length - (Nat.toDigits 10 q.den).length
    if (q.scale (-x)).floor = 0 then x - 1 else x

end Fraction

def digits (count : Nat) (a : Nat) : List Char :=
  let ds := Nat.toDigits 10 a
  List.replicate (count - ds.length) '0' ++ ds

def pointed (places : Nat) (a : Nat) : String :=
  let ds := digits (places + 1) a
  let whole := String.ofList (ds.take (ds.length - places))
  if places = 0 then whole
  else whole ++ "." ++ String.ofList (ds.drop (ds.length - places))

def exponentMark (x : Int) : String :=
  (if x < 0 then "e-" else "e+") ++ String.ofList (digits 2 x.natAbs)

inductive Binary where
  | notANumber
  | infinite (negative : Bool)
  | finite (negative : Bool) (m : Nat) (e : Int)

def Binary.ofFloat (a : Float) : Binary :=
  let bits := a.toBits.toNat
  let negative := bits / Nat.pow 2 63 == 1
  let biased : Nat := bits / Nat.pow 2 52 % Nat.pow 2 11
  let fraction : Nat := bits % Nat.pow 2 52
  if biased = 2047 then
    if fraction = 0 then .infinite negative else .notANumber
  else if biased = 0 then .finite negative fraction (-1074)
  else .finite negative (Nat.pow 2 52 + fraction) (biased - 1075)

def write (form : Fraction → String) (a : Float) : String :=
  match Binary.ofFloat a with
  | .notANumber => "nan"
  | .infinite negative => if negative then "-inf" else "inf"
  | .finite negative m e => (if negative then "-" else "") ++ form (Fraction.ofBinary m e)

end QuadraticProgram.Decimal
