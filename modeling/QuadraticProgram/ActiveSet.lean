import QuadraticProgram.Dense

/-!
# The active set

Every entry carries a status next to its multiplier. The status says which bound, if any, the entry
is held at, and the multiplier carries the force. At a solution a multiplier is nonpositive on the
lower side and nonnegative on the upper side. An entry whose bounds coincide is an equality: it
follows the sign of its multiplier and is never released. An entry may also be fixed at zero under
a number of its own, which no run does by itself.
-/
namespace QuadraticProgram

inductive Status where
  | lower
  | inactive
  | upper
  /-- The entry is held at zero, away from its bounds, under a number of its own. -/
  | fixed (number : Int) (foreign : 1 < number.natAbs)
  deriving DecidableEq, Repr

inductive Blocking where
  | upperBound
  | lowerBound
  | signChange
  deriving DecidableEq, Repr

namespace Status

variable {α β : Type} [Scalar α] [Bound α β]

abbrev IsActive (s : Status) : Prop := s ≠ inactive

def ofSign (multiplier : α) : Status :=
  if multiplier < 0 then lower else if 0 < multiplier then upper else inactive

def heldAt (lb ub : β) : Status → α
  | lower => Bound.toScalar lb
  | upper => Bound.toScalar ub
  | inactive => 0
  | fixed .. => 0

def boundOn (lb ub : β) : Status → β
  | upper => ub
  | _ => lb

/-- The side that a guess proposes: the sign of the multiplier decides, and for an equality with no
sign its position relative to the bound does. -/
def proposed (lb ub : β) (current multiplier : α) : Status :=
  if Same lb ub ∧ ofSign multiplier = inactive then
    if Bound.ofScalar current ≤ ub then lower else upper
  else ofSign multiplier

/-- The status seeded from a guess. No entry is held at an infinite bound. -/
def seed (lb ub : β) (current multiplier : α) : Status :=
  let side := proposed lb ub current multiplier
  if Bound.isFinite (side.boundOn lb ub) then side else inactive

/-- An equality moves to the side of its multiplier. A zero multiplier leaves it where it is. -/
def followSign (lb ub : β) (multiplier : α) (s : Status) : Status :=
  if Same lb ub then
    if multiplier < 0 then lower else if 0 < multiplier then upper else s
  else s

/-- The status that an entry takes when it limits a step: a value that reaches a bound is held
there, and everything else is released. -/
def afterBlocking : Option Blocking → Status
  | some .upperBound => upper
  | some .lowerBound => lower
  | some .signChange => inactive
  | none => inactive

def mark? : Status → Option String
  | lower => some "-"
  | inactive => some "0"
  | upper => some "+"
  | fixed .. => none

def code : Status → Int
  | lower => -1
  | inactive => 0
  | upper => 1
  | fixed number _ => number

def ofCode (number : Int) : Status :=
  if h : 1 < number.natAbs then fixed number h
  else if number < 0 then lower else if 0 < number then upper else inactive

theorem code_ofCode (number : Int) : (ofCode number).code = number := by
  unfold ofCode
  split
  · rfl
  · split
    · simp only [code]
      omega
    · split <;> simp only [code] <;> omega

theorem ofCode_code (s : Status) : ofCode s.code = s := by
  cases s with
  | fixed number foreign => simp [ofCode, code, foreign]
  | _ => rfl

def marks? (statuses : List Status) : Option String :=
  (statuses.mapM mark?).map (", ".intercalate ·)

end Status

structure ActiveSet (α : Type) (k : Nat) where
  status : Vector Status k
  multiplier : Vector α k

namespace ActiveSet

variable {α β : Type} [Scalar α] [Bound α β] {k : Nat}

def empty : ActiveSet α k := ⟨Vector.ofFn fun _ => .inactive, Vector.ofFn fun _ => 0⟩

/-- The active set seeded from values and multipliers. Entries that are not held lose theirs. -/
def seed (lb ub : Vector β k) (current multiplier : Vector α k) : ActiveSet α k :=
  let status := Vector.ofFn fun e =>
    Status.seed (lb.get e) (ub.get e) (current.get e) (multiplier.get e)
  { status := status
    multiplier := Vector.ofFn fun e =>
      if status.get e = .inactive then 0 else multiplier.get e }

@[simp] theorem get_status_seed (lb ub : Vector β k) (current multiplier : Vector α k) (e : Fin k) :
    (seed lb ub current multiplier).status.get e =
      Status.seed (lb.get e) (ub.get e) (current.get e) (multiplier.get e) := by
  simp [seed]

@[simp] theorem get_multiplier_seed (lb ub : Vector β k) (current multiplier : Vector α k)
    (e : Fin k) :
    (seed lb ub current multiplier).multiplier.get e =
      if Status.seed (lb.get e) (ub.get e) (current.get e) (multiplier.get e) = .inactive then 0
      else multiplier.get e := by
  simp [seed]

def followSigns (lb ub : Vector β k) (s : ActiveSet α k) : ActiveSet α k :=
  { s with
    status := Vector.ofFn fun e =>
      (s.status.get e).followSign (lb.get e) (ub.get e) (s.multiplier.get e) }

@[simp] theorem get_status_followSigns (lb ub : Vector β k) (s : ActiveSet α k) (e : Fin k) :
    (s.followSigns lb ub).status.get e =
      (s.status.get e).followSign (lb.get e) (ub.get e) (s.multiplier.get e) := by
  simp [followSigns]

@[simp] theorem multiplier_followSigns (lb ub : Vector β k) (s : ActiveSet α k) :
    (s.followSigns lb ub).multiplier = s.multiplier := rfl

def block (s : ActiveSet α k) (index : Option (Fin k)) (kind : Option Blocking) : ActiveSet α k :=
  { status := Vector.ofFn fun e =>
      if index = some e then Status.afterBlocking kind else s.status.get e
    multiplier := Vector.ofFn fun e => if index = some e then 0 else s.multiplier.get e }

@[simp] theorem get_status_block (s : ActiveSet α k) (index : Option (Fin k))
    (kind : Option Blocking) (e : Fin k) :
    (s.block index kind).status.get e =
      if index = some e then Status.afterBlocking kind else s.status.get e := by
  simp [block]

@[simp] theorem get_multiplier_block (s : ActiveSet α k) (index : Option (Fin k))
    (kind : Option Blocking) (e : Fin k) :
    (s.block index kind).multiplier.get e =
      if index = some e then 0 else s.multiplier.get e := by
  simp [block]

def heldAt (lb ub : Vector β k) (status : Vector Status k) : Vector α k :=
  Vector.ofFn fun e => (status.get e).heldAt (lb.get e) (ub.get e)

@[simp] theorem get_heldAt (lb ub : Vector β k) (status : Vector Status k) (e : Fin k) :
    (heldAt lb ub status : Vector α k).get e = (status.get e).heldAt (lb.get e) (ub.get e) := by
  simp [heldAt]

end ActiveSet

end QuadraticProgram
