import PickleGraph.Bytes

/-!
# Integer numerals

Numerals in a line of ASCII: an optional sign, an optional base marker, and
digits that may be grouped by single underscores. Surrounding blanks are
ignored. Decimal numerals are limited in length; the other bases are not.
-/

namespace PickleGraph.Integer

/-- The greatest number of digits of a decimal numeral. -/
def maxDecimalDigits : Nat := 4300

def isBlank (byte : UInt8) : Bool :=
  byte = 0x20 || (0x09 ≤ byte && byte ≤ 0x0D)

def trim (bytes : Bytes) : Bytes :=
  ((bytes.dropWhile isBlank).reverse.dropWhile isBlank).reverse

/-- The value of a digit, letters of either case counting from ten. -/
def digitValue? (byte : UInt8) : Option Nat :=
  if 0x30 ≤ byte ∧ byte ≤ 0x39 then some (byte.toNat - 0x30)
  else if 0x41 ≤ byte ∧ byte ≤ 0x5A then some (byte.toNat - 0x37)
  else if 0x61 ≤ byte ∧ byte ≤ 0x7A then some (byte.toNat - 0x57)
  else none

def digitBelow? (base : Nat) (byte : UInt8) : Option Nat :=
  (digitValue? byte).filter (· < base)

/-- Digits with single underscores between them; at least one digit. -/
def digits? (base : Nat) : Bytes → Option (List Nat)
  | [] => none
  | [byte] => (digitBelow? base byte).map fun digit => [digit]
  | byte :: next :: rest => do
      let digit ← digitBelow? base byte
      let others ←
        if next = 0x5F then digits? base rest else digits? base (next :: rest)
      return digit :: others

def ofDigits (base : Nat) (digits : List Nat) : Nat :=
  digits.foldl (fun number digit => number * base + digit) 0

def markedBase? (marker : UInt8) : Option Nat :=
  if marker = 0x78 ∨ marker = 0x58 then some 16
  else if marker = 0x6F ∨ marker = 0x4F then some 8
  else if marker = 0x62 ∨ marker = 0x42 then some 2
  else none

def decimal? (bytes : Bytes) : Option Nat := do
  let digits ← digits? 10 bytes
  guard (digits.length ≤ maxDecimalDigits)
  return ofDigits 10 digits

/-- A base marker after a zero, an optional underscore, then digits. -/
def marked? : Bytes → Option Nat
  | zero :: marker :: rest => do
      guard (zero = 0x30)
      let base ← markedBase? marker
      let digits := if rest.head? = some 0x5F then rest.tail else rest
      (digits? base digits).map (ofDigits base)
  | _ => none

def unsigned? (bytes : Bytes) : Option Nat :=
  marked? bytes <|> decimal? bytes

/-- An optional sign before an unsigned numeral. -/
def signed? (unsigned : Bytes → Option Nat) : Bytes → Option Int
  | [] => none
  | sign :: rest =>
      if sign = 0x2D then (unsigned rest).map fun number => -(number : Int)
      else if sign = 0x2B then (unsigned rest).map Int.ofNat
      else (unsigned (sign :: rest)).map Int.ofNat

def parse? (bytes : Bytes) : Option Int :=
  signed? unsigned? (trim bytes)

/-- A decimal numeral only. -/
def parseDecimal? (bytes : Bytes) : Option Int :=
  signed? decimal? (trim bytes)

end PickleGraph.Integer
