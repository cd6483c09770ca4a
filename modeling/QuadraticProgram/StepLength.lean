import QuadraticProgram.ActiveSet

/-!
# The longest step

Given values, multipliers and their directions, the longest step in `[0, 1]` that keeps every free
entry within its bounds and every held inequality on its side of a zero multiplier. An entry that
would be in the way proposes a length; the first of the shortest proposals limits the step.
Equalities and entries fixed at zero never do. A proposal outside `[0, 1]` is reported and never
clamped.
-/
namespace QuadraticProgram

variable {α β : Type} [Scalar α] [Bound α β] {k : Nat}

structure Candidate (α : Type) where
  length : α
  kind : Blocking

/-- The proposal of one entry, if it would be in the way of a full step. A free entry that is
already on or past the bound it moves to proposes length zero. -/
def candidate? (lb ub : β) (value direction : α) (status : Status)
    (multiplier multiplierDirection : α) : Option (Candidate α) :=
  match status with
  | .inactive =>
    if 0 < direction ∧ ub ≤ Bound.ofScalar (value + direction) then
      let room := Bound.toScalar (max (ub - Bound.ofScalar value) (Bound.ofScalar 0))
      some ⟨room / direction, .upperBound⟩
    else if direction < 0 ∧ Bound.ofScalar (value + direction) ≤ lb then
      let room := Bound.toScalar (min (lb - Bound.ofScalar value) (Bound.ofScalar 0))
      some ⟨room / direction, .lowerBound⟩
    else none
  | .lower =>
    if ¬ Same lb ub ∧ 0 < multiplierDirection ∧ 0 ≤ multiplier + multiplierDirection then
      some ⟨-multiplier / multiplierDirection, .signChange⟩
    else none
  | .upper =>
    if ¬ Same lb ub ∧ multiplierDirection < 0 ∧ multiplier + multiplierDirection ≤ 0 then
      some ⟨-multiplier / multiplierDirection, .signChange⟩
    else none
  | .fixed .. => none

structure Direction (α : Type) (k : Nat) where
  value : Vector α k
  multiplier : Vector α k

def candidates (lb ub : Vector β k) (value : Vector α k) (s : ActiveSet α k)
    (d : Direction α k) : Vector (Option (Candidate α)) k :=
  Vector.ofFn fun e =>
    candidate? (lb.get e) (ub.get e) (value.get e) (d.value.get e) (s.status.get e)
      (s.multiplier.get e) (d.multiplier.get e)

@[simp] theorem get_candidates (lb ub : Vector β k) (value : Vector α k) (s : ActiveSet α k)
    (d : Direction α k) (e : Fin k) :
    (candidates lb ub value s d).get e =
      candidate? (lb.get e) (ub.get e) (value.get e) (d.value.get e) (s.status.get e)
        (s.multiplier.get e) (d.multiplier.get e) := by
  simp [candidates]

abbrev Candidate.IsValid (c : Candidate α) : Prop := 0 ≤ c.length ∧ c.length ≤ 1

structure StepLimit (α : Type) (k : Nat) where
  length : α
  index : Option (Fin k)
  kind : Option Blocking
  candidates : Vector (Option (Candidate α)) k
  invalid : Option (Fin k)

/-- The first entry with the shortest proposal. A length that is not a number is the shortest. -/
def shortest? (proposals : Vector (Option (Candidate α)) k) : Option (Fin k × Candidate α) :=
  firstLeast? (fun c c' => Scalar.precedes c.length c'.length) fun e => proposals.get e

def firstInvalid? (proposals : Vector (Option (Candidate α)) k) : Option (Fin k) :=
  (List.finRange k).find? fun e =>
    match proposals.get e with
    | some c => decide (¬ c.IsValid)
    | none => false

/-- The step that a number of proposals allow. Without one of length at most one it is full. -/
def stepLimit (proposals : Vector (Option (Candidate α)) k) : StepLimit α k :=
  let full : StepLimit α k :=
    { length := 1
      index := none
      kind := none
      candidates := proposals
      invalid := firstInvalid? proposals }
  match shortest? proposals with
  | some (e, c) =>
    if c.length ≤ 1 then { full with length := c.length, index := some e, kind := some c.kind }
    else full
  | none => full

end QuadraticProgram
