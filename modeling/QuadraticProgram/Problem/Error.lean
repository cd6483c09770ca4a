import QuadraticProgram.Text.Quoted

/-!
# What can be wrong with given data

The causes for which data do not make up a problem, or do not fit a solver, and their wording.
-/
namespace QuadraticProgram

inductive DataError where
  | unreadable
  | noVariables
  | hessianShape (found : List Nat) (n : Nat)
  | constraintShape (found : List Nat) (n : Nat)
  | length (name : String) (found expected : Nat)
  | crossedBounds (name : String) (positions : List Nat)
  | size (n m expectedN expectedM : Nat)
  | outsidePattern
  deriving DecidableEq, Repr

namespace DataError

def message : DataError → String
  | unreadable => "Array cannot be read as numbers"
  | noVariables => "Problem has no decision variables"
  | hessianShape found n => s!"H has shape {Text.shape found}, expected ({n}, {n})"
  | constraintShape found n => s!"A has shape {Text.shape found}, expected (m, {n})"
  | length name found expected => s!"{name} has length {found}, expected {expected}"
  | crossedBounds name positions =>
    s!"Infeasible bounds on {name}: lower bound exceeds upper bound at indices " ++
      Text.listing positions
  | size n m expectedN expectedM =>
    s!"Problem has {n} variables and {m} constraints, " ++
      s!"solver was set up for {expectedN} and {expectedM}"
  | outsidePattern => "Problem has nonzero entries outside the analysed sparsity pattern"

end DataError

end QuadraticProgram
