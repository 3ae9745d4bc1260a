import PickleGraph.Text.Charset

/-!
# Backslash escapes

Two notations for text in a line: byte strings with the escapes of quoted
literals, and texts of octets with four-digit and eight-digit escapes only.
-/

namespace PickleGraph.Escape

def isHexDigit (byte : UInt8) : Bool :=
  (0x30 ≤ byte && byte ≤ 0x39) || (0x41 ≤ byte && byte ≤ 0x46) ||
    (0x61 ≤ byte && byte ≤ 0x66)

def hexValue (byte : UInt8) : Nat :=
  if byte ≤ 0x39 then byte.toNat - 0x30
  else if byte ≤ 0x46 then byte.toNat - 0x37
  else byte.toNat - 0x57

def hexNumber (digits : Bytes) : Nat :=
  digits.foldl (fun number digit => number * 16 + hexValue digit) 0

def isOctalDigit (byte : UInt8) : Bool :=
  0x30 ≤ byte && byte ≤ 0x37

def octalNumber (digits : Bytes) : Nat :=
  digits.foldl (fun number digit => number * 8 + (digit.toNat - 0x30)) 0

/-- Escapes that stand for one octet, by the character after the backslash. -/
def simpleEscapes : List (UInt8 × UInt8) :=
  [(0x5C, 0x5C), (0x27, 0x27), (0x22, 0x22), (0x62, 0x08), (0x66, 0x0C),
    (0x74, 0x09), (0x6E, 0x0A), (0x72, 0x0D), (0x76, 0x0B), (0x61, 0x07)]

/-! ## Quoted byte strings -/

inductive Fault
  | trailingBackslash
  | badHex (position : Nat)
  deriving DecidableEq, Repr

def Fault.message : Fault → Text
  | .trailingBackslash => "Trailing \\ in string"
  | .badHex position =>
      Text.ofString "invalid \\x escape at position " ++ Text.ofNat position

/-- Resolves the escapes of a byte string that starts at `position`. A
backslash before any other character stands for itself. -/
def unescapeFrom (position : Nat) : Bytes → Except Fault Bytes
  | [] => .ok []
  | byte :: rest =>
      if byte ≠ 0x5C then
        (unescapeFrom (position + 1) rest).map (byte :: ·)
      else
        match rest with
        | [] => .error .trailingBackslash
        | selector :: rest =>
            match simpleEscapes.lookup selector with
            | some octet =>
                (unescapeFrom (position + 2) rest).map (octet :: ·)
            | none =>
                if selector = 0x0A then
                  unescapeFrom (position + 2) rest
                else if isOctalDigit selector then
                  let more := (rest.take 2).takeWhile isOctalDigit
                  let octet := UInt8.ofNat (octalNumber (selector :: more))
                  (unescapeFrom (position + 2 + more.length)
                    (rest.drop more.length)).map (octet :: ·)
                else if selector = 0x78 then
                  let digits := (rest.take 2).takeWhile isHexDigit
                  if digits.length = 2 then
                    let octet := UInt8.ofNat (hexNumber digits)
                    (unescapeFrom (position + 4) (rest.drop 2)).map
                      (octet :: ·)
                  else
                    .error (.badHex position)
                else
                  (unescapeFrom (position + 2) rest).map
                    ([0x5C, selector] ++ ·)
termination_by bytes => bytes.length
decreasing_by
  all_goals simp only [List.length_drop, List.length_cons]; omega

def unescape (bytes : Bytes) : Except Fault Bytes :=
  unescapeFrom 0 bytes

/-! ## Texts of octets -/

/-- The place and kind of a faulty long escape; `stop` is exclusive. -/
structure LongFault where
  start : Nat
  stop : Nat
  reason : String
  deriving DecidableEq, Repr

def LongFault.message (fault : LongFault) : Text :=
  List.flatten
    ["'rawunicodeescape' codec can't decode bytes in position ",
      Text.ofNat fault.start, "-", Text.ofNat (fault.stop - 1), ": ",
      fault.reason]

/-- The number of digits after the selector of a long escape. -/
def longDigits? (selector : UInt8) : Option (Nat × String) :=
  if selector = 0x75 then
    some (4, "truncated \\uXXXX escape")
  else if selector = 0x55 then
    some (8, "truncated \\UXXXXXXXX escape")
  else
    none

/-- Resolves the long escapes of a byte string that starts at `position`; any
other octet is a code point. A backslash before another character is kept and
protects that character. -/
def unescapeLongFrom (position : Nat) : Bytes → Except LongFault Text
  | [] => .ok []
  | byte :: rest =>
      if byte ≠ 0x5C then
        (unescapeLongFrom (position + 1) rest).map
          (CodePoint.ofByte byte :: ·)
      else
        match rest with
        | [] => .ok [CodePoint.ofByte byte]
        | selector :: rest =>
            match longDigits? selector with
            | none =>
                (unescapeLongFrom (position + 2) rest).map
                  ([CodePoint.ofByte byte, CodePoint.ofByte selector] ++ ·)
            | some (count, truncated) =>
                let digits := (rest.take count).takeWhile isHexDigit
                let stop := position + 2 + digits.length
                if digits.length < count then
                  .error ⟨position, stop, truncated⟩
                else if valid : hexNumber digits < 0x110000 then
                  (unescapeLongFrom stop (rest.drop count)).map
                    (⟨hexNumber digits, valid⟩ :: ·)
                else
                  .error ⟨position, stop, "\\Uxxxxxxxx out of range"⟩
termination_by bytes => bytes.length
decreasing_by
  all_goals simp only [List.length_drop, List.length_cons]; omega

def unescapeLong (bytes : Bytes) : Except LongFault Text :=
  unescapeLongFrom 0 bytes

end PickleGraph.Escape
