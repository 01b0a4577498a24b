/-!
# Value/Double — 64-bit floating point numbers by their bits

A number is its IEEE 754 bit pattern, so that nothing is lost between reading and printing it.  The
one operation the values need is comparison: a NaN equals nothing, the two zeros are equal, and
all else is equal exactly when the bits are.
-/

namespace Reflection

/-- A 64-bit floating point number. -/
structure Double where
  /-- Sign, exponent and fraction, from the highest bit to the lowest. -/
  bits : UInt64
deriving DecidableEq, Repr, Inhabited

namespace Double

/-- Positive zero. -/
def zero : Double := ⟨0⟩

/-- The bits without the sign. -/
def magnitude (x : Double) : UInt64 := x.bits &&& 0x7FFFFFFFFFFFFFFF

/-- Whether the number is a NaN: all exponent bits set and a fraction that is not zero. -/
def isNaN (x : Double) : Bool := x.magnitude > 0x7FF0000000000000

/-- Whether the number is one of the two zeros. -/
def isZero (x : Double) : Bool := x.magnitude == 0

/-- Equality of numbers, as arithmetic compares them. -/
def same (x y : Double) : Bool :=
  !x.isNaN && !y.isNaN && (x.bits == y.bits || (x.isZero && y.isZero))

theorem same_comm (x y : Double) : x.same y = y.same x := by
  simp only [same, Bool.and_comm, BEq.comm]

end Double

end Reflection
