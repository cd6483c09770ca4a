import Mathlib.Analysis.Real.Sqrt
import Mathlib.Data.EReal.Operations
import QuadraticProgram.Scalar

/-!
# The exact reading

Real scalars with extended real bounds: sums do not round, every scalar is a finite number, and a
bound may be infinite. An infinite bound taken as a scalar is zero. A statement about the algorithm
in exact arithmetic is a statement about this reading.
-/
namespace QuadraticProgram

noncomputable instance : Scalar ℝ where
  decidableLT := inferInstance
  decidableLE := inferInstance
  sqrt := Real.sqrt
  length values := Real.sqrt (values.map fun a => a * a).sum
  tiny := 0
  isZero a := decide (a = 0)
  isFinite _ := true
  isNegative a := decide (a < 0)

noncomputable instance : Bound ℝ EReal where
  decidableLE := inferInstance
  exceeds a b := decide (b < a)
  ofScalar := Real.toEReal
  toScalar := EReal.toReal
  isFinite b := decide (b ≠ ⊤ ∧ b ≠ ⊥)
  negInf := ⊥
  posInf := ⊤

theorem same_real (a b : ℝ) : Same a b ↔ a = b := le_antisymm_iff.symm

theorem same_ereal (a b : EReal) : Same a b ↔ a = b := le_antisymm_iff.symm

theorem half_real : (Scalar.half : ℝ) = 1 / 2 := by
  norm_num [Scalar.half]

theorem abs_real (a : ℝ) : Scalar.abs a = |a| := rfl

theorem length_real (values : List ℝ) :
    Scalar.length values = Real.sqrt (values.map fun a => a * a).sum := rfl

theorem tiny_real : (Scalar.tiny : ℝ) = 0 := rfl

theorem precedes_real (a b : ℝ) : Scalar.precedes a b = decide (a < b) := by
  simp [Scalar.precedes]

end QuadraticProgram
