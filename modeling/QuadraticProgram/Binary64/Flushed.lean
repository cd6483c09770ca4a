import QuadraticProgram.Binary64.Basic

/-!
# Double precision without subnormals

The working arithmetic of a run. An operation and a comparison take a subnormal operand for the zero
of its sign, and a subnormal result becomes such a zero. Values that are only passed on keep all
their bits, and the tests on values as given see them.
-/
namespace QuadraticProgram

structure Flushed where
  value : Float

namespace Flushed

def leastNormal : Float := Float.scaleB 1.0 (-1022)

/-- A subnormal value becomes the zero of its sign. -/
def flush (a : Float) : Float :=
  if a.abs < leastNormal then (if Binary64.signBit a then -0.0 else 0.0) else a

def lift (f : Float → Float) (a : Flushed) : Flushed := ⟨flush (f (flush a.value))⟩

def lift₂ (f : Float → Float → Float) (a b : Flushed) : Flushed :=
  ⟨flush (f (flush a.value) (flush b.value))⟩

instance : LT Flushed := ⟨fun a b => flush a.value < flush b.value⟩

instance : LE Flushed := ⟨fun a b => flush a.value ≤ flush b.value⟩

instance (a b : Flushed) : Decidable (a < b) :=
  inferInstanceAs (Decidable (flush a.value < flush b.value))

instance (a b : Flushed) : Decidable (a ≤ b) :=
  inferInstanceAs (Decidable (flush a.value ≤ flush b.value))

instance : Scalar Flushed where
  add := lift₂ (· + ·)
  sub := lift₂ (· - ·)
  mul := lift₂ (· * ·)
  div := lift₂ (· / ·)
  neg a := ⟨-a.value⟩
  zero := ⟨0.0⟩
  one := ⟨1.0⟩
  natCast k := ⟨Float.ofNat k⟩
  max := lift₂ Binary64.maximum
  min := lift₂ Binary64.minimum
  decidableLT := inferInstance
  decidableLE := inferInstance
  sqrt := lift Float.sqrt
  length values := ⟨Binary64.length (values.map Flushed.value)⟩
  tiny := ⟨Binary64.tiny⟩
  isZero a := a.value == 0.0
  isFinite a := a.value.isFinite
  isNegative a := Binary64.signBit a.value

instance : Bound Flushed Flushed where
  sub := lift₂ (· - ·)
  max := lift₂ Binary64.maximum
  min := lift₂ Binary64.minimum
  decidableLE := inferInstance
  exceeds a b := b.value < a.value
  ofScalar := id
  toScalar := id
  isFinite a := a.value.isFinite
  negInf := ⟨-Binary64.infinity⟩
  posInf := ⟨Binary64.infinity⟩

def epsilon : Flushed := ⟨Binary64.epsilon⟩

end Flushed

end QuadraticProgram
