/-!
# Byte strings

Byte strings are lists of octets. Fixed-width fields are read as unsigned
numbers in either byte order.
-/

namespace PickleGraph

-- Powers are those of the core library, also where an algebra is in scope.
@[default_instance 20000]
instance (priority := high) corePow {α : Type} [NatPow α] : Pow α Nat :=
  instPowNat

abbrev Bytes := List UInt8

namespace Bytes

def ofString (text : String) : Bytes :=
  text.toList.map fun character => UInt8.ofNat character.toNat

/-- The unsigned number whose least significant octet comes first. -/
def toNatLE : Bytes → Nat
  | [] => 0
  | byte :: rest => byte.toNat + 256 * toNatLE rest

def toNatBE (bytes : Bytes) : Nat :=
  toNatLE bytes.reverse

/-- The `width` least significant octets of a number, least significant
first. -/
def ofNatLE : (width : Nat) → Nat → Bytes
  | 0, _ => []
  | width + 1, number =>
      UInt8.ofNat number :: ofNatLE width (number / 256)

/-- The signed number in two's complement whose least significant octet comes
first. The empty byte string is zero. -/
def toIntLE (bytes : Bytes) : Int :=
  let unsigned := toNatLE bytes
  let range := 256 ^ bytes.length
  if range ≤ 2 * unsigned then (unsigned : Int) - range else unsigned

@[simp] theorem length_ofNatLE (width number : Nat) :
    (ofNatLE width number).length = width := by
  induction width generalizing number with
  | zero => rfl
  | succ width inductionHypothesis =>
      simp [ofNatLE, inductionHypothesis]

theorem toNatLE_lt (bytes : Bytes) :
    toNatLE bytes < 256 ^ bytes.length := by
  induction bytes with
  | nil => simp [toNatLE]
  | cons byte rest inductionHypothesis =>
      have bound := byte.toNat_lt
      simp only [toNatLE, List.length_cons, Nat.pow_succ]
      omega

theorem toNatLE_ofNatLE
    (width number : Nat) (bound : number < 256 ^ width) :
    toNatLE (ofNatLE width number) = number := by
  induction width generalizing number with
  | zero =>
      simp only [Nat.pow_zero] at bound
      simp only [ofNatLE, toNatLE]
      omega
  | succ width inductionHypothesis =>
      have quotientBound : number / 256 < 256 ^ width := by
        rw [Nat.pow_succ] at bound
        omega
      simp only [ofNatLE, toNatLE, inductionHypothesis _ quotientBound,
        UInt8.toNat_ofNat']
      omega

end Bytes

end PickleGraph
