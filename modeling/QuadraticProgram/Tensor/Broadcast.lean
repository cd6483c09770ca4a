import QuadraticProgram.Tensor.Basic

/-!
# Arrays side by side

Arrays of different shapes stand side by side when their dimensions, counted from the last one, are
equal or one of the two is one. A dimension of one is repeated, and so is a whole array that has
fewer dimensions.
-/
namespace QuadraticProgram

variable {τ υ : Type}

def commonDimension? (a b : Nat) : Option Nat :=
  if a = b ∨ b = 1 then some a else if a = 1 then some b else none

def commonLength? (lengths : List Nat) : Option Nat := lengths.foldlM commonDimension? 1

def stretch? (k : Nat) : List τ → Option (Vector τ k)
  | [a] => some (Vector.replicate k a)
  | values => if h : values.length = k then some ⟨values.toArray, by simp [h]⟩ else none

def commonReversed? : List Nat → List Nat → Option (List Nat)
  | [], t => some t
  | s, [] => some s
  | a :: s, b :: t => do
    let d ← commonDimension? a b
    let rest ← commonReversed? s t
    some (d :: rest)

def commonShape? (s t : List Nat) : Option (List Nat) :=
  (commonReversed? s.reverse t.reverse).map List.reverse

def repeated : (own common : List Nat) → List τ → List τ
  | a :: own, d :: common, entries =>
    let parts := (List.range a).flatMap fun i =>
      repeated own common ((entries.drop (i * positions own)).take (positions own))
    if a = d then parts else (List.replicate d parts).flatten
  | _, _, entries => entries

def Tensor.spread (t : Tensor τ) (shape : List Nat) : List τ :=
  repeated (List.replicate (shape.length - t.shape.length) 1 ++ t.shape) shape t.entries.toList

def Tensor.pair? (t : Tensor τ) (u : Tensor υ) : Option (List (τ × υ)) :=
  (commonShape? t.shape u.shape).map fun shape => (t.spread shape).zip (u.spread shape)

end QuadraticProgram
