import QuadraticProgram.Decimal.Fraction
import QuadraticProgram.Decimal.Literal
import QuadraticProgram.Text.Quoted

/-!
# Settings of a solver

A solver has a budget of iterations and may be asked for a report. Settings arrive as loosely typed
values under names. A budget is read as an integer and has to be positive; anything that is not
empty or zero asks for a report.
-/
namespace QuadraticProgram

inductive SettingValue where
  | none
  | flag (b : Bool)
  | integer (a : Int)
  | real (a : Float)
  | text (t : String)
  | collection (size : Nat)

inductive SettingError where
  | unknownOrdering (name : String)
  | unknownOption (name : String)
  | nonpositiveBudget (found : Int)
  | notAnInteger (text : String)
  | notANumber
  | infinite
  | noInteger
  deriving DecidableEq, Repr

namespace SettingError

def message : SettingError → String
  | unknownOrdering name => "Unknown column ordering " ++ Text.quoted name
  | unknownOption name => "Unknown option " ++ Text.quoted name
  | nonpositiveBudget found => s!"max_iter must be a positive integer, got {found}"
  | notAnInteger text => "invalid literal for int() with base 10: " ++ Text.quoted text
  | notANumber => "cannot convert float NaN to integer"
  | infinite => "cannot convert float infinity to integer"
  | noInteger => "value has no integer form"

end SettingError

namespace SettingValue

def truncate (a : Float) : Except SettingError Int :=
  match Decimal.Binary.ofFloat a with
  | .notANumber => throw .notANumber
  | .infinite _ => throw .infinite
  | .finite negative m e =>
    let whole : Int := (Decimal.Fraction.ofBinary m e).floor
    pure (if negative then -whole else whole)

def toInteger : SettingValue → Except SettingError Int
  | flag b => pure (if b then 1 else 0)
  | integer a => pure a
  | real a => truncate a
  | text t =>
    match Decimal.integer? t with
    | some a => pure a
    | _ => throw (.notAnInteger t)
  | none => throw .noInteger
  | collection _ => throw .noInteger

def isTrue : SettingValue → Bool
  | none => false
  | flag b => b
  | integer a => a != 0
  | real a => a != 0
  | text t => t != ""
  | collection size => size != 0

end SettingValue

structure Settings where
  budget : Nat
  verbose : Bool
  budget_pos : 0 < budget

namespace Settings

def create (budget : Int) (verbose : Bool) : Except SettingError Settings :=
  if h : 0 < budget then pure ⟨budget.toNat, verbose, by omega⟩
  else throw (.nonpositiveBudget budget)

def set (s : Settings) (name : String) (value : SettingValue) : Except SettingError Settings :=
  match name with
  | "max_iter" => value.toInteger.bind fun budget => create budget s.verbose
  | "verbose" => pure { s with verbose := value.isTrue }
  | _ => throw (.unknownOption name)

def setAll (s : Settings) : List (String × SettingValue) → Except SettingError Settings
  | [] => pure s
  | (name, value) :: rest => (s.set name value).bind fun s => s.setAll rest

end Settings

end QuadraticProgram
