import QuadraticProgram.Decimal.Fraction

/-!
# The fewest digits that read back

The reals that round to a double `m * 2 ^ e` reach half way to its neighbours, the ends included
when `m` is even. The shortest form takes the coarsest decimal grid with a point in that interval
and, of two such points, the nearer one. It is positional while the leading digit stands between the
fourth place and the sixteenth digit, and scientific otherwise.
-/
namespace QuadraticProgram.Decimal

def isNarrowBelow (m : Nat) (e : Int) : Bool := m == Nat.pow 2 52 && decide (-1074 < e)

def readsBack (m : Nat) (e : Int) (decimal : Fraction) : Bool :=
  let below := Fraction.ofBinary (4 * m - if isNarrowBelow m e then 1 else 2) (e - 2)
  let above := Fraction.ofBinary (4 * m + 2) (e - 2)
  let closed := m % 2 == 0
  match below.compare decimal, decimal.compare above with
  | .lt, .lt => true
  | .eq, .lt => closed
  | .lt, .eq => closed
  | _, _ => false

/-- The point of the grid `10 ^ p` nearest to a value, among its two neighbours that read back. -/
def gridPoint? (m : Nat) (e : Int) (p : Int) : Option Nat :=
  let q := (Fraction.ofBinary m e).scale (-p)
  let low := q.floor
  let hit (d : Nat) : Bool := readsBack m e (Fraction.scale ⟨d, 1⟩ p)
  match hit low, hit (low + 1) with
  | true, true => some q.round
  | true, false => some low
  | false, true => some (low + 1)
  | false, false => none

/-- The digits of the shortest form and the power of ten of the last one. Seventeen digits always
read back. -/
def shortestDigits (m : Nat) (e : Int) : Nat × Int :=
  let x := (Fraction.ofBinary m e).exponent
  let found := (List.range 17).findSome? fun (k : Nat) =>
    let p := x - k
    (gridPoint? m e p).map fun d => (d, p)
  found.getD (((Fraction.ofBinary m e).scale (16 - x)).round, x - 16)

def layOut (d : Nat) (p : Int) : String :=
  let all := Nat.toDigits 10 d
  let ds := (all.reverse.dropWhile (· == '0')).reverse
  let last := p + (all.length - ds.length : Nat)
  let x := last + (ds.length - 1 : Nat)
  if -4 ≤ x ∧ x < 16 then
    match last with
    | .ofNat zeros => String.ofList (ds ++ List.replicate zeros '0') ++ ".0"
    | .negSucc k => pointed (k + 1) (d / Nat.pow 10 (all.length - ds.length))
  else
    String.ofList (ds.take 1) ++
      (if ds.length = 1 then "" else "." ++ String.ofList (ds.drop 1)) ++ exponentMark x

def shortest (a : Float) : String :=
  match Binary.ofFloat a with
  | .notANumber => "nan"
  | .infinite negative => if negative then "-inf" else "inf"
  | .finite negative m e =>
    (if negative then "-" else "") ++
      if m = 0 then "0.0"
      else
        let (d, p) := shortestDigits m e
        layOut d p

end QuadraticProgram.Decimal
