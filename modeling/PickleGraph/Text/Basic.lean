import PickleGraph.Bytes

/-!
# Text

A text is a list of code points. Unlike a string of scalar values it may hold
surrogate code points, which decoded pickles do contain. Every script that has
decimal digits has ten of them in a row, from zero to nine.
-/

namespace PickleGraph

/-- A number below `0x110000`, surrogates included. -/
abbrev CodePoint := Fin 0x110000

namespace CodePoint

instance : @NeZero Nat Zero.ofOfNat0 0x110000 :=
  ⟨by decide⟩

def ofChar (character : Char) : CodePoint :=
  ⟨character.toNat, by
    have valid := character.valid
    simp only [UInt32.isValidChar, Nat.isValidChar] at valid
    simp only [Char.toNat]
    omega⟩

/-- An octet read as the code point of the same number. -/
def ofByte (byte : UInt8) : CodePoint :=
  ⟨byte.toNat, by have bound := byte.toNat_lt; omega⟩

def isSurrogate (point : CodePoint) : Bool :=
  0xD800 ≤ point.val && point.val ≤ 0xDFFF

/-- The character with this code point, unless it is a surrogate. -/
def toChar? (point : CodePoint) : Option Char :=
  if valid : point.val.isValidChar then
    some (Char.ofNatAux point.val valid)
  else
    none

def isChar (point : CodePoint) (character : Char) : Bool :=
  point.val == character.toNat

/-- ASCII digits, for formats that admit no others. -/
def isDigit (point : CodePoint) : Bool :=
  0x30 ≤ point.val && point.val ≤ 0x39

/-- White space of any script. -/
def isBlank (point : CodePoint) : Bool :=
  let code := point.val
  (0x09 ≤ code && code ≤ 0x0D) || (0x1C ≤ code && code ≤ 0x20) ||
    (0x2000 ≤ code && code ≤ 0x200A) ||
    [0x85, 0xA0, 0x1680, 0x2028, 0x2029, 0x202F, 0x205F, 0x3000].contains
      code

end CodePoint

abbrev Text := List CodePoint

namespace Text

def ofString (text : String) : Text :=
  text.toList.map CodePoint.ofChar

instance : Coe String Text := ⟨ofString⟩

def ofNat (number : Nat) : Text := ofString (toString number)

def ofInt (number : Int) : Text := ofString (toString number)

def toString? (text : Text) : Option String :=
  (text.mapM CodePoint.toChar?).map String.ofList

/-- Every octet read as the code point of the same number. -/
def ofLatin1 (bytes : Bytes) : Text :=
  bytes.map CodePoint.ofByte

end Text

/-! ## Decimal digits -/

namespace CodePoint

/-- The zeros of all scripts. -/
def zeros : List Nat :=
  [0x30, 0x660, 0x6F0, 0x7C0, 0x966, 0x9E6, 0xA66, 0xAE6, 0xB66, 0xBE6,
    0xC66, 0xCE6, 0xD66, 0xDE6, 0xE50, 0xED0, 0xF20, 0x1040, 0x1090, 0x17E0,
    0x1810, 0x1946, 0x19D0, 0x1A80, 0x1A90, 0x1B50, 0x1BB0, 0x1C40, 0x1C50,
    0xA620, 0xA8D0, 0xA900, 0xA9D0, 0xA9F0, 0xAA50, 0xABF0, 0xFF10, 0x104A0,
    0x10D30, 0x11066, 0x110F0, 0x11136, 0x111D0, 0x112F0, 0x11450, 0x114D0,
    0x11650, 0x116C0, 0x11730, 0x118E0, 0x11950, 0x11C50, 0x11D50, 0x11DA0,
    0x16A60, 0x16AC0, 0x16B50, 0x1D7CE, 0x1D7D8, 0x1D7E2, 0x1D7EC, 0x1D7F6,
    0x1E140, 0x1E2F0, 0x1E950, 0x1FBF0]

/-- The value of a decimal digit of any script. -/
def digitValue? (point : CodePoint) : Option Nat :=
  (zeros.find? fun first => first ≤ point.val && point.val < first + 10).map
    (point.val - ·)

end CodePoint

namespace Text

/-- The octets of a numeral: blanks and digits beyond ASCII are brought to it,
and a question mark stands for what no numeral has. -/
def numeralOctets (text : Text) : Bytes :=
  text.map fun point =>
    if point.val < 0x80 then
      UInt8.ofNat point.val
    else if point.isBlank then
      0x20
    else
      match point.digitValue? with
      | some digit => UInt8.ofNat (0x30 + digit)
      | none => 0x3F

end Text

end PickleGraph
