/-!
# Double-precision numbers

A number is kept as its 64-bit pattern: a sign, eleven bits of exponent and
fifty-two bits of fraction. Comparison is the numeric one, so the two zeros are
equal and a NaN equals nothing, itself included.
-/

set_option autoImplicit false

namespace CellHeap

structure Binary64 where
  bits : UInt64
  deriving DecidableEq, Repr

namespace Binary64

def isNegative (x : Binary64) : Bool := Nat.pow 2 63 ≤ x.bits.toNat

def exponent (x : Binary64) : Nat := x.bits.toNat / Nat.pow 2 52 % Nat.pow 2 11

def fraction (x : Binary64) : Nat := x.bits.toNat % Nat.pow 2 52

def isNaN (x : Binary64) : Bool := x.exponent == 2047 && x.fraction != 0

def isInfinite (x : Binary64) : Bool := x.exponent == 2047 && x.fraction == 0

def isZero (x : Binary64) : Bool := x.exponent == 0 && x.fraction == 0

/-- A finite number is `significand * 2 ^ scale`, up to its sign. -/
def significand (x : Binary64) : Nat :=
  if x.exponent = 0 then x.fraction else Nat.pow 2 52 + x.fraction

def scale (x : Binary64) : Int := (max x.exponent 1 : Nat) - 1075

/-- Numeric equality. -/
def equals (x y : Binary64) : Bool :=
  !x.isNaN && !y.isNaN && (x.bits == y.bits || (x.isZero && y.isZero))

/-- The product with one hundred, rounded to the nearest number. -/
def timesHundred (x : Binary64) : Binary64 := ⟨(Float.ofBits x.bits * 100).toBits⟩

theorem equals_symm (x y : Binary64) : x.equals y = y.equals x := by
  simp only [equals, Bool.and_comm, BEq.comm]

theorem equals_self (x : Binary64) : x.equals x = !x.isNaN := by
  simp [equals]

end Binary64

end CellHeap
