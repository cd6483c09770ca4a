/-!
# Reading numbers

A number may have blanks around it, a sign, and underscores between digits. Digits of any script
count; their code points come in runs of ten, from a zero to a nine. An integer is digits alone; a
real has a point, an exponent, or is a named special value, in either case of letters.
-/
namespace QuadraticProgram.Text

def blanks : List (Nat × Nat) :=
  [(0x9, 0xD), (0x20, 0x20), (0x85, 0x85), (0xA0, 0xA0), (0x1680, 0x1680), (0x2000, 0x200A),
   (0x2028, 0x2029), (0x202F, 0x202F), (0x205F, 0x205F), (0x3000, 0x3000)]

def isBlank (c : Char) : Bool :=
  blanks.any fun range => decide (range.1 ≤ c.toNat ∧ c.toNat ≤ range.2)

def strip (cs : List Char) : List Char :=
  ((cs.dropWhile isBlank).reverse.dropWhile isBlank).reverse

/-- The zeros of the runs of decimal digits in Unicode 14. -/
def digitZeros : List Nat :=
  [0x30, 0x660, 0x6F0, 0x7C0, 0x966, 0x9E6, 0xA66, 0xAE6, 0xB66, 0xBE6, 0xC66, 0xCE6, 0xD66, 0xDE6,
   0xE50, 0xED0, 0xF20, 0x1040, 0x1090, 0x17E0, 0x1810, 0x1946, 0x19D0, 0x1A80, 0x1A90, 0x1B50,
   0x1BB0, 0x1C40, 0x1C50, 0xA620, 0xA8D0, 0xA900, 0xA9D0, 0xA9F0, 0xAA50, 0xABF0, 0xFF10, 0x104A0,
   0x10D30, 0x11066, 0x110F0, 0x11136, 0x111D0, 0x112F0, 0x11450, 0x114D0, 0x11650, 0x116C0,
   0x11730, 0x118E0, 0x11950, 0x11C50, 0x11D50, 0x11DA0, 0x16A60, 0x16AC0, 0x16B50, 0x1D7CE,
   0x1D7D8, 0x1D7E2, 0x1D7EC, 0x1D7F6, 0x1E140, 0x1E2F0, 0x1E950, 0x1FBF0]

def digitValue? (c : Char) : Option Nat :=
  (digitZeros.find? fun z => decide (z ≤ c.toNat ∧ c.toNat < z + 10)).map (c.toNat - ·)

end QuadraticProgram.Text

namespace QuadraticProgram.Decimal

open Text

def normalize (text : String) : List Char :=
  (strip text.toList).map fun c =>
    match digitValue? c with
    | some d => Char.ofNat ('0'.toNat + d)
    | none => c

def dropUnderscores (before : Option Char) : List Char → Option (List Char)
  | [] => some []
  | c :: rest =>
    if c = '_' then
      if before.any Char.isDigit ∧ rest.head?.any Char.isDigit then
        dropUnderscores (some c) rest
      else none
    else (dropUnderscores (some c) rest).map (c :: ·)

def signOf : List Char → Bool × List Char
  | '-' :: rest => (true, rest)
  | '+' :: rest => (false, rest)
  | rest => (false, rest)

def valueOf (ds : List Char) : Nat := ds.foldl (fun a c => 10 * a + (c.toNat - '0'.toNat)) 0

def integer? (text : String) : Option Int := do
  let cs ← dropUnderscores none (normalize text)
  let (negative, ds) := signOf cs
  if ds.isEmpty ∨ ¬ ds.all Char.isDigit then none
  else if negative then some (-(valueOf ds)) else some (valueOf ds)

/-- The double nearest to `d * 10 ^ x`. Magnitudes far outside the range of doubles are settled
without computing the power. -/
def toFloat (d : Nat) (x : Int) : Float :=
  if d = 0 then 0
  else
    let leading : Int := x + (Nat.toDigits 10 d).length
    if 400 < leading then 1.0 / 0.0
    else if leading < -400 then 0
    else Float.ofScientific d (decide (x < 0)) x.natAbs

def exponent? : List Char → Option Int
  | [] => some 0
  | c :: rest =>
    if c = 'e' ∨ c = 'E' then
      let (negative, ds) := signOf rest
      if ds.isEmpty ∨ ¬ ds.all Char.isDigit then none
      else some (if negative then -(valueOf ds) else valueOf ds)
    else none

def magnitude? (cs : List Char) : Option Float := do
  let whole := cs.takeWhile Char.isDigit
  let afterWhole := cs.dropWhile Char.isDigit
  let afterPoint := if afterWhole.head? = some '.' then afterWhole.drop 1 else []
  let places := afterPoint.takeWhile Char.isDigit
  let tail := if afterWhole.head? = some '.' then afterPoint.dropWhile Char.isDigit else afterWhole
  if whole.isEmpty ∧ places.isEmpty then none
  else
    let x ← exponent? tail
    some (toFloat (valueOf (whole ++ places)) (x - places.length))

def special? (cs : List Char) : Option Float :=
  match String.ofList (cs.map Char.toLower) with
  | "inf" => some (1.0 / 0.0)
  | "infinity" => some (1.0 / 0.0)
  | "nan" => some (0.0 / 0.0)
  | _ => none

def real? (text : String) : Option Float := do
  let cs ← dropUnderscores none (normalize text)
  let (negative, body) := signOf cs
  let a ← (special? body).or (magnitude? body)
  some (if negative then -a else a)

def ofInteger? (i : Int) : Option Float :=
  let a := toFloat i.natAbs 0
  if a.isFinite then some (if i < 0 then -a else a) else none

end QuadraticProgram.Decimal
