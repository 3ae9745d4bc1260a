import PickleGraph.Bytes

/-!
# Binary floating point

A number in the 64-bit binary interchange format, kept as its bits. Conversions
and comparisons are exact computations on significand and exponent.
-/

namespace PickleGraph

structure Binary64 where
  bits : UInt64
  deriving DecidableEq, Repr

namespace Binary64

/-! ## Parts of a number -/

def negative (x : Binary64) : Bool :=
  2 ^ 63 ≤ x.bits.toNat

def exponentField (x : Binary64) : Nat :=
  x.bits.toNat / 2 ^ 52 % 2 ^ 11

def fractionField (x : Binary64) : Nat :=
  x.bits.toNat % 2 ^ 52

def isFinite (x : Binary64) : Bool :=
  x.exponentField ≠ 2047

def isNaN (x : Binary64) : Bool :=
  x.exponentField = 2047 && x.fractionField ≠ 0

def isZero (x : Binary64) : Bool :=
  x.exponentField = 0 && x.fractionField = 0

/-- The magnitude of a finite number is `significand * 2 ^ (scale - 1074)`. -/
def significand (x : Binary64) : Nat :=
  if x.exponentField = 0 then
    x.fractionField
  else
    2 ^ 52 + x.fractionField

def scale (x : Binary64) : Nat :=
  x.exponentField - 1

/-- The magnitude of a finite number as numerator and denominator. -/
def ratio (x : Binary64) : Nat × Nat :=
  if 1074 ≤ x.scale then
    (x.significand * 2 ^ (x.scale - 1074), 1)
  else
    (x.significand, 2 ^ (1074 - x.scale))

/-! ## Construction -/

def ofParts (negative : Bool) (magnitudeBits : Nat) : Binary64 :=
  ⟨UInt64.ofNat (magnitudeBits + if negative then 2 ^ 63 else 0)⟩

def infinity (negative : Bool) : Binary64 :=
  ofParts negative 0x7FF0000000000000

def zero (negative : Bool) : Binary64 :=
  ofParts negative 0

def quietNaN (negative : Bool) : Binary64 :=
  ofParts negative 0x7FF8000000000000

/-- A quotient to the nearest whole number, a half to the even neighbour. -/
def divideToEven (numerator denominator : Nat) : Nat :=
  let quotient := numerator / denominator
  let twice := 2 * (numerator % denominator)
  if denominator < twice ∨ (twice = denominator ∧ quotient % 2 = 1) then
    quotient + 1
  else
    quotient

/-- Multiplies a quotient by a power of two, as numerator and denominator. -/
def shiftRatio (numerator denominator : Nat) (power : Int) : Nat × Nat :=
  if 0 ≤ power then
    (numerator * 2 ^ power.toNat, denominator)
  else
    (numerator, denominator * 2 ^ (-power).toNat)

/-- The scale at which the quotient has 53 binary digits, or the least one. -/
def scaleOfRatio (numerator denominator : Nat) : Nat :=
  let guess : Int :=
    (numerator.log2 : Int) - (denominator.log2 : Int) - 52
  let (top, bottom) := shiftRatio numerator denominator (-guess)
  let exact := if top < bottom * 2 ^ 52 then guess - 1 else guess
  (exact + 1074).toNat

/-- The nearest number to a quotient of naturals, ties to even; infinity above
the greatest finite number. -/
def ofRatio (negative : Bool) (numerator denominator : Nat) : Binary64 :=
  if numerator = 0 then
    zero negative
  else
    let scale := scaleOfRatio numerator denominator
    let (top, bottom) :=
      shiftRatio numerator denominator (1074 - (scale : Int))
    let magnitude := scale * 2 ^ 52 + divideToEven top bottom
    if magnitude < 0x7FF0000000000000 then
      ofParts negative magnitude
    else
      infinity negative

/-- The nearest number to an integer, unless it is out of range. -/
def ofInt? (number : Int) : Option Binary64 :=
  let rounded := ofRatio (number < 0) number.natAbs 1
  if rounded.isFinite then some rounded else none

/-! ## Comparison -/

/-- Equality of numbers: no NaN equals anything, and both zeros are equal. -/
def equals (x y : Binary64) : Bool :=
  !x.isNaN && !y.isNaN && (x.bits == y.bits || (x.isZero && y.isZero))

def equalsInt (x : Binary64) (number : Int) : Bool :=
  x.isFinite &&
    (let (numerator, denominator) := x.ratio
    numerator == number.natAbs * denominator &&
      (number == 0 || x.negative == decide (number < 0)))

/-! ## Bytes and arithmetic -/

def ofBytesBE (bytes : Bytes) : Binary64 :=
  ⟨UInt64.ofNat (Bytes.toNatBE bytes)⟩

def add (x y : Binary64) : Binary64 :=
  ⟨(Float.ofBits x.bits + Float.ofBits y.bits).toBits⟩

def sub (x y : Binary64) : Binary64 :=
  ⟨(Float.ofBits x.bits - Float.ofBits y.bits).toBits⟩

end Binary64

end PickleGraph
