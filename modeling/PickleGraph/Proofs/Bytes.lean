import PickleGraph.Number.Binary64

/-!
# Numbers in fixed-width fields

A signed number fits a width if its two's complement at that width stands for
it. Any sufficient width gives the number back.
-/

namespace PickleGraph.Bytes

/-- The two's complement of a number in `width` octets, the least significant
first. -/
def ofIntLE (width : Nat) (number : Int) : Bytes :=
  ofNatLE width (number % (256 ^ width : Nat)).toNat

/-- Whether a width has room for a number and its sign. No octets have room
for zero. -/
def FitsSigned (width : Nat) (number : Int) : Prop :=
  -(256 ^ width : Nat) ≤ 2 * number ∧ 2 * number < (256 ^ width : Nat)

instance (width : Nat) (number : Int) :
    Decidable (FitsSigned width number) :=
  inferInstanceAs (Decidable (_ ∧ _))

@[simp] theorem length_ofIntLE (width : Nat) (number : Int) :
    (ofIntLE width number).length = width :=
  length_ofNatLE width _

theorem toIntLE_ofIntLE {width : Nat} {number : Int}
    (fits : FitsSigned width number) :
    toIntLE (ofIntLE width number) = number := by
  obtain ⟨low, high⟩ := fits
  have positive : 0 < 256 ^ width := Nat.pow_pos (by decide)
  have lower := Int.emod_nonneg number
    (show ((256 ^ width : Nat) : Int) ≠ 0 by omega)
  have upper := Int.emod_lt_of_pos number
    (show (0 : Int) < ((256 ^ width : Nat) : Int) by omega)
  have unsigned :
      toNatLE (ofIntLE width number) =
        (number % (256 ^ width : Nat)).toNat :=
    toNatLE_ofNatLE width _ (by omega)
  rw [toIntLE, unsigned, length_ofIntLE]
  generalize 256 ^ width = range at *
  -- The remainder is the number itself or, for a negative one, one range more.
  rcases Int.lt_or_le number 0 with negative | natural
  · have remainder : number % (range : Int) = number + range := by
      rw [← Int.add_emod_right, Int.emod_eq_of_lt]
        <;> omega
    rw [remainder]
    split <;> omega
  · have remainder : number % (range : Int) = number :=
      Int.emod_eq_of_lt natural (by omega)
    rw [remainder]
    split <;> omega

/-- A number without a sign is its own two's complement. -/
theorem ofIntLE_natCast {width number : Nat} (bound : number < 256 ^ width) :
    ofIntLE width (number : Int) = ofNatLE width number := by
  rw [ofIntLE, Int.emod_eq_of_lt (by omega) (by omega), Int.toNat_natCast]

theorem toNatBE_reverse_ofNatLE {width number : Nat}
    (bound : number < 256 ^ width) :
    toNatBE (ofNatLE width number).reverse = number := by
  rw [toNatBE, List.reverse_reverse, toNatLE_ofNatLE width number bound]

end PickleGraph.Bytes

namespace PickleGraph.Binary64

/-- The eight octets of a number, the most significant first. -/
def toBytesBE (number : Binary64) : Bytes :=
  (Bytes.ofNatLE 8 number.bits.toNat).reverse

@[simp] theorem length_toBytesBE (number : Binary64) :
    number.toBytesBE.length = 8 := by
  rw [toBytesBE, List.length_reverse, Bytes.length_ofNatLE]

theorem ofBytesBE_toBytesBE (number : Binary64) :
    ofBytesBE number.toBytesBE = number := by
  have bound : number.bits.toNat < 256 ^ 8 := number.bits.toNat_lt
  rw [ofBytesBE, toBytesBE, Bytes.toNatBE_reverse_ofNatLE bound,
    UInt64.ofNat_toNat]

end PickleGraph.Binary64
