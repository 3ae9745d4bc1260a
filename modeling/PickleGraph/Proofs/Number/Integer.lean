import Mathlib.Data.List.TakeWhile
import PickleGraph.Number.Integer

/-!
# Decimal numerals are read as the number they denote

A decimal numeral is an optional sign before digits, of which there may be
leading zeros. The reader takes it as it is written, whether or not it tries
other bases first.
-/

namespace PickleGraph.Integer

/-- The octet of a decimal digit. -/
def digitByte (digit : Nat) : UInt8 :=
  UInt8.ofNat (0x30 + digit)

/-- Digits that a decimal numeral may consist of. -/
structure IsDecimal (digits : List Nat) : Prop where
  nonempty : digits ≠ []
  short : digits.length ≤ maxDecimalDigits
  below : ∀ digit ∈ digits, digit < 10

/-- The decimal numerals of a number. -/
inductive Numeral : Int → Bytes → Prop
  | bare {digits : List Nat} : IsDecimal digits →
      Numeral (ofDigits 10 digits) (digits.map digitByte)
  | plus {digits : List Nat} : IsDecimal digits →
      Numeral (ofDigits 10 digits) (0x2B :: digits.map digitByte)
  | minus {digits : List Nat} : IsDecimal digits →
      Numeral (-(ofDigits 10 digits : Nat)) (0x2D :: digits.map digitByte)

/-! ## Digits -/

theorem toNat_digitByte {digit : Nat} (below : digit < 10) :
    (digitByte digit).toNat = 0x30 + digit :=
  UInt8.toNat_ofNat_of_lt' (by show 0x30 + digit < 256; omega)

theorem digitBelow?_digitByte {digit : Nat} (below : digit < 10) :
    digitBelow? 10 (digitByte digit) = some digit := by
  have value := toNat_digitByte below
  have isDigit : 0x30 ≤ digitByte digit ∧ digitByte digit ≤ 0x39 := by
    simp only [UInt8.le_iff_toNat_le, value, UInt8.reduceToNat]
    omega
  rw [digitBelow?, digitValue?, if_pos isDigit, value, Nat.add_sub_cancel_left]
  simp [below]

/-- An octet that is neither a digit nor of another part of a numeral. -/
theorem digitByte_ne {digit : Nat} {byte : UInt8} (below : digit < 10)
    (other : byte.toNat < 0x30 ∨ 0x39 < byte.toNat) :
    digitByte digit ≠ byte := by
  rintro rfl
  rw [toNat_digitByte below] at other
  omega

theorem digits?_map_digitByte
    {digits : List Nat} (nonempty : digits ≠ [])
    (below : ∀ digit ∈ digits, digit < 10) :
    digits? 10 (digits.map digitByte) = some digits := by
  induction digits with
  | nil => exact absurd rfl nonempty
  | cons digit rest inductionHypothesis =>
      have first := digitBelow?_digitByte (below digit List.mem_cons_self)
      cases rest with
      | nil =>
          show digits? 10 [digitByte digit] = some [digit]
          rw [digits?, first]
          rfl
      | cons next rest =>
          have others := inductionHypothesis (List.cons_ne_nil _ _)
            fun digit member => below digit (List.mem_cons_of_mem _ member)
          have noUnderscore : digitByte next ≠ 0x5F :=
            digitByte_ne (below next (by simp)) (.inr (by decide))
          rw [List.map_cons] at others
          rw [List.map_cons, List.map_cons, digits?, first,
            Option.bind_eq_bind, Option.bind_some]
          dsimp only
          rw [if_neg noUnderscore, others]
          rfl

theorem markedBase?_digitByte {digit : Nat} (below : digit < 10) :
    markedBase? (digitByte digit) = none := by
  have ne : ∀ byte : UInt8, 0x39 < byte.toNat → digitByte digit ≠ byte :=
    fun byte late => digitByte_ne below (.inr late)
  simp only [markedBase?, ne 0x78 (by decide), ne 0x58 (by decide),
    ne 0x6F (by decide), ne 0x4F (by decide), ne 0x62 (by decide),
    ne 0x42 (by decide), or_self, ↓reduceIte]

theorem marked?_map_digitByte
    {digits : List Nat} (below : ∀ digit ∈ digits, digit < 10) :
    marked? (digits.map digitByte) = none := by
  match digits with
  | [] => rfl
  | [digit] => rfl
  | digit :: next :: rest =>
      have noMarker := markedBase?_digitByte (below next (by simp))
      rw [List.map_cons, List.map_cons, marked?, noMarker]
      exact Option.bind_fun_none _

theorem unsigned?_map_digitByte
    {digits : List Nat} (isDecimal : IsDecimal digits) :
    unsigned? (digits.map digitByte) = some (ofDigits 10 digits) := by
  rw [unsigned?, marked?_map_digitByte isDecimal.below, decimal?,
    digits?_map_digitByte isDecimal.nonempty isDecimal.below,
    Option.bind_eq_bind, Option.bind_some]
  have short : (guard (digits.length ≤ maxDecimalDigits) : Option Unit) =
      some () :=
    if_pos isDecimal.short
  rw [short]
  rfl

/-! ## Numerals -/

theorem trim_eq_self {bytes : Bytes}
    (noBlank : ∀ byte ∈ bytes, isBlank byte = false) :
    trim bytes = bytes := by
  have drop : ∀ {octets : Bytes},
      (∀ byte ∈ octets, isBlank byte = false) →
        octets.dropWhile isBlank = octets := by
    intro octets noBlank
    cases octets with
    | nil => rfl
    | cons byte rest =>
        rw [List.dropWhile_cons, noBlank byte List.mem_cons_self]
        rfl
  rw [trim, drop noBlank, drop, List.reverse_reverse]
  intro byte member
  exact noBlank byte (List.mem_reverse.mp member)

theorem isBlank_digitByte {digit : Nat} (below : digit < 10) :
    isBlank (digitByte digit) = false := by
  simp only [isBlank, ← UInt8.toNat_inj, UInt8.le_iff_toNat_le,
    toNat_digitByte below, UInt8.reduceToNat]
  simp
  omega

theorem isBlank_of_mem_map
    {digits : List Nat} (isDecimal : IsDecimal digits) :
    ∀ byte ∈ digits.map digitByte, isBlank byte = false := by
  intro byte member
  obtain ⟨digit, digitMember, rfl⟩ := List.mem_map.mp member
  exact isBlank_digitByte (isDecimal.below digit digitMember)

theorem parse?_numeral {number : Int} {text : Bytes}
    (numeral : Numeral number text) :
    parse? text = some number := by
  cases numeral with
  | @bare digits isDecimal =>
      rw [parse?, trim_eq_self (isBlank_of_mem_map isDecimal)]
      have value := unsigned?_map_digitByte isDecimal
      obtain ⟨digit, rest, rfl⟩ :=
        List.exists_cons_of_ne_nil isDecimal.nonempty
      have below := isDecimal.below digit List.mem_cons_self
      rw [List.map_cons] at value ⊢
      rw [signed?, if_neg (digitByte_ne below (.inl (by decide))),
        if_neg (digitByte_ne below (.inl (by decide))), value]
      rfl
  | @plus digits isDecimal =>
      rw [parse?, trim_eq_self, signed?, if_neg (by decide), if_pos rfl,
        unsigned?_map_digitByte isDecimal]
      · rfl
      · intro byte member
        rcases List.mem_cons.mp member with rfl | member
        · rfl
        · exact isBlank_of_mem_map isDecimal byte member
  | @minus digits isDecimal =>
      rw [parse?, trim_eq_self, signed?, if_pos rfl,
        unsigned?_map_digitByte isDecimal]
      · rfl
      · intro byte member
        rcases List.mem_cons.mp member with rfl | member
        · rfl
        · exact isBlank_of_mem_map isDecimal byte member

/-! ## Characters of numerals -/

theorem notMem_map_digitByte
    {digits : List Nat} {byte : UInt8} (isDecimal : IsDecimal digits)
    (other : byte.toNat < 0x30 ∨ 0x39 < byte.toNat) :
    byte ∉ digits.map digitByte := by
  intro member
  obtain ⟨digit, digitMember, same⟩ := List.mem_map.mp member
  exact digitByte_ne (isDecimal.below digit digitMember) other same

/-- A numeral holds no octet that is neither a sign nor a digit. -/
theorem notMem_numeral {number : Int} {text : Bytes} {byte : UInt8}
    (numeral : Numeral number text)
    (noSign : byte ≠ 0x2B ∧ byte ≠ 0x2D)
    (noDigit : byte.toNat < 0x30 ∨ 0x39 < byte.toNat) :
    byte ∉ text := by
  cases numeral with
  | bare isDecimal => exact notMem_map_digitByte isDecimal noDigit
  | plus isDecimal =>
      rw [List.mem_cons]
      rintro (same | member)
      · exact noSign.1 same
      · exact notMem_map_digitByte isDecimal noDigit member
  | minus isDecimal =>
      rw [List.mem_cons]
      rintro (same | member)
      · exact noSign.2 same
      · exact notMem_map_digitByte isDecimal noDigit member

end PickleGraph.Integer
