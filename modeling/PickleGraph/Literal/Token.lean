import PickleGraph.Number.Decimal
import PickleGraph.Text.Charset

/-!
# Tokens of literals

The words of a literal notation: brackets, punctuation, numerals, quoted texts
and byte strings, and names of constants. Blanks, comments and joined lines
separate tokens; outside brackets a literal ends with its line.
-/

namespace PickleGraph.Literal

inductive Bracket
  | round
  | square
  | curly
  deriving DecidableEq, Repr

inductive Name
  | noneValue
  | trueValue
  | falseValue
  | setType
  deriving DecidableEq, Repr

inductive Token
  | opening (bracket : Bracket)
  | closing (bracket : Bracket)
  | comma
  | colon
  | plus
  | minus
  | ellipsis
  | int (value : Nat)
  | float (value : Binary64)
  | imaginary (value : Binary64)
  | str (text : Text)
  | bytes (content : Bytes)
  | name (name : Name)
  deriving DecidableEq, Repr

/-- The greatest number of brackets inside each other. -/
def maxDepth : Nat := 200

/-! ## Classes of characters -/

def isBlank (point : CodePoint) : Bool :=
  point.isChar ' ' || point.isChar '\t' || point.isChar '\x0c'

def isNewline (point : CodePoint) : Bool :=
  point.isChar '\n'

def isLetter (point : CodePoint) : Bool :=
  (0x41 ≤ point.val && point.val ≤ 0x5A) ||
    (0x61 ≤ point.val && point.val ≤ 0x7A)

/-- Characters that continue a name or spoil a numeral before them. -/
def isNamePart (point : CodePoint) : Bool :=
  isLetter point || point.isDigit || point.isChar '_' ||
    0x80 ≤ point.val

/-- An ASCII character as an octet; other characters as an octet that occurs
in no numeral. -/
def octet (point : CodePoint) : UInt8 :=
  if point.val < 0x80 then UInt8.ofNat point.val else 0

/-! ## Numerals -/

/-- Digits below a base with single underscores between them, and what
follows. -/
def takeDigits? (base : Nat) : Text → Option (List Nat × Text)
  | [] => none
  | [point] =>
      (Integer.digitBelow? base (octet point)).map ([·], [])
  | point :: next :: rest =>
      match Integer.digitBelow? base (octet point) with
      | none => none
      | some digit =>
          if next.isChar '_' then
            (takeDigits? base rest).map fun (digits, after) =>
              (digit :: digits, after)
          else if (Integer.digitBelow? base (octet next)).isSome then
            (takeDigits? base (next :: rest)).map fun (digits, after) =>
              (digit :: digits, after)
          else
            some ([digit], next :: rest)

/-- Digits if there is one at the head, else none of them. -/
def takeOptionalDigits? (input : Text) : Option (List Nat × Text) :=
  match input with
  | point :: _ =>
      if point.isDigit then takeDigits? 10 input else some ([], input)
  | [] => some ([], [])

def takeMarked? (base : Nat) (input : Text) : Option (Token × Text) :=
  let digits :=
    match input with
    | point :: rest => if point.isChar '_' then rest else input
    | [] => []
  (takeDigits? base digits).map fun (digits, rest) =>
    (.int (Integer.ofDigits base digits), rest)

/-- An exponent at the head of the input. A marker without digits spoils the
numeral. -/
def takeExponent? (input : Text) : Option (Option Int × Text) :=
  match input with
  | [] => some (none, [])
  | marker :: rest =>
      if marker.isChar 'e' || marker.isChar 'E' then
        let (negative, digits) :=
          match rest with
          | [] => (false, [])
          | sign :: tail =>
              if sign.isChar '-' then (true, tail)
              else if sign.isChar '+' then (false, tail)
              else (false, rest)
        (takeDigits? 10 digits).map fun (digits, after) =>
          let magnitude : Int := Integer.ofDigits 10 digits
          (some (if negative then -magnitude else magnitude), after)
      else
        some (none, input)

/-- A numeral of digits alone: no leading zeros, and not too long. -/
def wholeNumber? (digits : List Nat) : Option Nat :=
  if digits.all (· == 0) then
    some 0
  else if digits.head? = some 0 ∨
      Integer.maxDecimalDigits < digits.length then
    none
  else
    some (Integer.ofDigits 10 digits)

def takeDecimal? (input : Text) : Option (Token × Text) := do
  let (whole, afterWhole) ← takeOptionalDigits? input
  let (fraction, afterFraction) ←
    match afterWhole with
    | point :: rest =>
        if point.isChar '.' then
          (takeOptionalDigits? rest).map fun (digits, after) =>
            (some digits, after)
        else
          some (none, afterWhole)
    | [] => some (none, [])
  let (exponent, afterExponent) ← takeExponent? afterFraction
  let digits := whole ++ fraction.getD []
  let value := Decimal.toBinary64 false (Integer.ofDigits 10 digits)
    (exponent.getD 0 - (fraction.getD []).length)
  match afterExponent with
  | point :: rest =>
      if point.isChar 'j' || point.isChar 'J' then
        return (.imaginary value, rest)
  | [] => pure ()
  if fraction.isSome || exponent.isSome then
    return (.float value, afterExponent)
  let number ← wholeNumber? whole
  return (.int number, afterExponent)

def markedBase? (marker : CodePoint) : Option Nat :=
  Integer.markedBase? (octet marker)

/-- A numeral at the head of the input, which no part of a name follows. -/
def takeNumeral? (input : Text) : Option (Token × Text) := do
  let (token, rest) ←
    match input with
    | zero :: marker :: rest =>
        match zero.isChar '0', markedBase? marker with
        | true, some base => takeMarked? base rest
        | _, _ => takeDecimal? input
    | _ => takeDecimal? input
  guard !(rest.head?.any isNamePart)
  return (token, rest)

/-! ## Quoted texts -/

/-- The marks before a quoted text: whether it is of octets, and whether its
backslashes stand for themselves. -/
structure QuoteMarks where
  isBytes : Bool
  isRaw : Bool
  deriving DecidableEq, Repr

def quoteMarks? (letters : String) : Option QuoteMarks :=
  match letters.toLower with
  | "" | "u" => some ⟨false, false⟩
  | "r" => some ⟨false, true⟩
  | "b" => some ⟨true, false⟩
  | "br" | "rb" => some ⟨true, true⟩
  | _ => none

def isQuote (point : CodePoint) : Bool :=
  point.isChar '"' || point.isChar '\''

/-- The body of a quoted text that ends with `closing`, and what follows. A
backslash protects the next character; a short text has no newline. -/
def takeBody? (closing : Text) : Text → Option (Text × Text)
  | [] => none
  | [last] => if closing = [last] then some ([], []) else none
  | point :: next :: rest =>
      if point.isChar '\\' then
        (takeBody? closing rest).map fun (body, after) =>
          (point :: next :: body, after)
      else if closing.isPrefixOf (point :: next :: rest) then
        some ([], (point :: next :: rest).drop closing.length)
      else if isNewline point && closing.length == 1 then
        none
      else
        (takeBody? closing (next :: rest)).map fun (body, after) =>
          (point :: body, after)

end PickleGraph.Literal
