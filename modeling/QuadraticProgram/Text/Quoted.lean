import QuadraticProgram.Text.Printable

/-!
# Text in messages and reports

Text stands between quotes, written so that it stays on one line and can be read. The quotes are
single unless the text holds a single quote and no double one. A backslash, the quote itself and
every character that does not show are escaped. Positions stand in square brackets, and the shape of
an array in round ones.
-/
namespace QuadraticProgram.Text

def hexadecimal (count : Nat) (a : Nat) : List Char :=
  let ds := Nat.toDigits 16 a
  List.replicate (count - ds.length) '0' ++ ds

def escapeCode (c : Char) : List Char :=
  if c.toNat < 0x100 then '\\' :: 'x' :: hexadecimal 2 c.toNat
  else if c.toNat < 0x10000 then '\\' :: 'u' :: hexadecimal 4 c.toNat
  else '\\' :: 'U' :: hexadecimal 8 c.toNat

def escape (quote : Char) (c : Char) : List Char :=
  if c = quote ∨ c = '\\' then ['\\', c]
  else if c = '\n' then ['\\', 'n']
  else if c = '\r' then ['\\', 'r']
  else if c = '\t' then ['\\', 't']
  else if isPrintable c then [c]
  else escapeCode c

def quoteFor (cs : List Char) : Char := if '\'' ∈ cs ∧ '"' ∉ cs then '"' else '\''

def quoted (text : String) : String :=
  let quote := quoteFor text.toList
  String.ofList (quote :: text.toList.flatMap (escape quote) ++ [quote])

def separated (numbers : List Nat) : String := ", ".intercalate (numbers.map toString)

def listing (positions : List Nat) : String := "[" ++ separated positions ++ "]"

def shape : List Nat → String
  | [d] => s!"({d},)"
  | dimensions => "(" ++ separated dimensions ++ ")"

end QuadraticProgram.Text
