import PickleGraph.Value

/-!
# Values as numbers

Integers, truth values, floating-point numbers, complex numbers and elements
taken out of arrays compare with each other as numbers.
-/

namespace PickleGraph

inductive Number
  | int (value : Int)
  | real (value : Binary64)
  | complex (real imaginary : Binary64)
  deriving DecidableEq, Repr

namespace Number

def realEquals (x : Binary64) : Number → Bool
  | int value => x.equalsInt value
  | real value => x.equals value
  | complex re im => im.isZero && x.equals re

/-- Equality of the numbers denoted; a NaN equals nothing. -/
def equals : Number → Number → Bool
  | int left, int right => left == right
  | int left, real right => right.equalsInt left
  | int left, complex re im => im.isZero && re.equalsInt left
  | real left, right => realEquals left right
  | complex re im, int right => im.isZero && re.equalsInt right
  | complex re im, real right => im.isZero && re.equals right
  | complex re im, complex otherRe otherIm =>
      re.equals otherRe && im.equals otherIm

def isZero : Number → Bool
  | int value => value == 0
  | real value => value.isZero
  | complex re im => re.isZero && im.isZero

end Number

/-! ## Elements of arrays -/

/-- A number in a binary format with fewer exponent and fraction bits, widened
without loss. -/
def Binary64.ofNarrow
    (exponentBits fractionBits bits : Nat) : Binary64 :=
  let negative := bits / 2 ^ (exponentBits + fractionBits) % 2 == 1
  let exponent := bits / 2 ^ fractionBits % 2 ^ exponentBits
  let fraction := bits % 2 ^ fractionBits
  let bias := 2 ^ (exponentBits - 1) - 1
  if exponent = 2 ^ exponentBits - 1 then
    if fraction = 0 then
      Binary64.infinity negative
    else
      Binary64.ofParts negative
        (0x7FF0000000000000 + fraction * 2 ^ (52 - fractionBits))
  else
    let significand :=
      if exponent = 0 then fraction else 2 ^ fractionBits + fraction
    let scale := max exponent 1
    Binary64.ofRatio negative (significand * 2 ^ scale)
      (2 ^ (bias + fractionBits))

def Binary64.ofBytes? (bytes : Bytes) (bigEndian : Bool) :
    Option Binary64 :=
  let bits := if bigEndian then Bytes.toNatBE bytes else Bytes.toNatLE bytes
  match bytes.length with
  | 8 => some ⟨UInt64.ofNat bits⟩
  | 4 => some (Binary64.ofNarrow 8 23 bits)
  | 2 => some (Binary64.ofNarrow 5 10 bits)
  | _ => none

/-- Drops the padding of a fixed-length byte string. -/
def dropPadding (bytes : Bytes) : Bytes :=
  (bytes.reverse.dropWhile (· == 0)).reverse

/-- The code points of a fixed-length text, four bytes each. -/
def pointsOfBytes (bigEndian : Bool) : Bytes → Text
  | first :: second :: third :: fourth :: rest =>
      let bytes := [first, second, third, fourth]
      let number :=
        if bigEndian then Bytes.toNatBE bytes else Bytes.toNatLE bytes
      Fin.ofNat _ number :: pointsOfBytes bigEndian rest
  | _ => []

/-- The plain value of an array element, for kinds that have one. -/
def Dtype.plainValue? (type : Dtype) (data : Bytes) : Option Value :=
  match type with
  | .element kind _ bigEndian _ =>
      let ordered := if bigEndian then data.reverse else data
      match kind with
      | .boolean => some (.bool (ordered.any (· != 0)))
      | .signed => some (.int (Bytes.toIntLE ordered))
      | .unsigned => some (.int (Bytes.toNatLE ordered))
      | .float =>
          (Binary64.ofBytes? data bigEndian).map fun number =>
            .float number 0
      | .complex => do
          let half := data.length / 2
          let real ← Binary64.ofBytes? (data.take half) bigEndian
          let imaginary ← Binary64.ofBytes? (data.drop half) bigEndian
          return .complex real imaginary 0
      | .bytes => some (.bytes (dropPadding data))
      | .text =>
          let points := pointsOfBytes bigEndian data
          some (.str (points.reverse.dropWhile (· == 0)).reverse)
      | _ => none
  | _ => none

/-- A value with an array element replaced by its plain value. -/
def Value.plain : Value → Value
  | .scalar type data => (type.plainValue? data).getD (.scalar type data)
  | value => value

def Value.number? (value : Value) : Option Number :=
  match value.plain with
  | .bool flag => some (.int (if flag then 1 else 0))
  | .int number => some (.int number)
  | .float number _ => some (.real number)
  | .complex re im _ => some (.complex re im)
  | _ => Option.none

end PickleGraph
