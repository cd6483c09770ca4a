import QuadraticProgram.Binary64.Length
import QuadraticProgram.Scalar

/-!
# Double precision

Binary floating point of 64 bits, for scalars and for bounds alike. The larger and the smaller of
two values are not a number as soon as one of them is not, and the zero with a sign is the smaller
zero.
-/
namespace QuadraticProgram.Binary64

def signBit (a : Float) : Bool := a.toBits >>> 63 == 1

def maximum (a b : Float) : Float :=
  if a.isNaN then a else if b.isNaN then b
  else if a < b || a == b && signBit a then b else a

def minimum (a b : Float) : Float :=
  if a.isNaN then a else if b.isNaN then b
  else if b < a || a == b && signBit b then b else a

def epsilon : Float := Float.scaleB 1.0 (-52)

/-- The least magnitude whose reciprocal still leaves room for the relative precision: the least one
that is not subnormal, over half the distance from one to the next larger value. -/
def tiny : Float := Float.scaleB 1.0 (-969)

instance : Scalar Float where
  zero := 0.0
  one := 1.0
  natCast := Float.ofNat
  max := maximum
  min := minimum
  decidableLT := inferInstance
  decidableLE := inferInstance
  sqrt := Float.sqrt
  length := length
  tiny := tiny
  isZero a := a == 0.0
  isFinite := Float.isFinite
  isNegative := signBit

instance : Bound Float Float where
  max := maximum
  min := minimum
  decidableLE := inferInstance
  exceeds a b := b < a
  ofScalar := id
  toScalar := id
  isFinite := Float.isFinite
  negInf := -infinity
  posInf := infinity

end QuadraticProgram.Binary64
