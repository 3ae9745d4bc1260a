import PickleGraph.Number.Binary64
import PickleGraph.Number.Integer

/-!
# Decimal numerals of floating-point numbers

Reading rounds the exact decimal to the nearest number. Writing uses the fewest
digits that read back, positional unless the number is very large or very
small.
-/

namespace PickleGraph.Decimal

/-! ## Reading -/

/-- The nearest number to `significand * 10 ^ exponent`. The two cut-offs lie
beyond the range of finite and of nonzero numbers. -/
def toBinary64
    (negative : Bool) (significand : Nat) (exponent : Int) : Binary64 :=
  let magnitude : Int := (Nat.toDigits 10 significand).length + exponent
  if significand = 0 ∨ magnitude < -400 then
    Binary64.zero negative
  else if 400 < magnitude then
    Binary64.infinity negative
  else if 0 ≤ exponent then
    Binary64.ofRatio negative (significand * 10 ^ exponent.toNat) 1
  else
    Binary64.ofRatio negative significand (10 ^ (-exponent).toNat)

def isDigit (byte : UInt8) : Bool :=
  0x30 ≤ byte && byte ≤ 0x39

def naturalOf (digits : Bytes) : Nat :=
  digits.foldl (fun number digit => number * 10 + (digit.toNat - 0x30)) 0

/-- An exponent at the head of the input, and what follows; an incomplete
exponent is not consumed. -/
def takeExponent (input : Bytes) : Int × Bytes :=
  match input with
  | [] => (0, [])
  | marker :: rest =>
      if marker = 0x65 ∨ marker = 0x45 then
        let (negative, digits) :=
          match rest with
          | [] => (false, [])
          | sign :: tail =>
              if sign = 0x2D then (true, tail)
              else if sign = 0x2B then (false, tail)
              else (false, rest)
        let number := digits.takeWhile isDigit
        if number.isEmpty then
          (0, input)
        else
          let magnitude : Int := naturalOf number
          (if negative then -magnitude else magnitude,
            digits.dropWhile isDigit)
      else
        (0, input)

def lowerCase (byte : UInt8) : UInt8 :=
  if 0x41 ≤ byte ∧ byte ≤ 0x5A then byte + 0x20 else byte

/-- What follows a word in either case at the head of the input. -/
def dropWord? (word : String) (input : Bytes) : Option Bytes :=
  let size := word.length
  if (input.take size).map lowerCase = Bytes.ofString word then
    some (input.drop size)
  else
    none

/-- The names of infinity and NaN at the head of the input. -/
def takeSpecial? (negative : Bool) (input : Bytes) :
    Option (Binary64 × Bytes) :=
  ((dropWord? "infinity" input <|> dropWord? "inf" input).map fun rest =>
      (Binary64.infinity negative, rest)) <|>
    (dropWord? "nan" input).map fun rest =>
      (Binary64.quietNaN negative, rest)

/-- An unsigned number at the head of the input, and what follows. -/
def takeUnsigned? (negative : Bool) (input : Bytes) :
    Option (Binary64 × Bytes) :=
  let whole := input.takeWhile isDigit
  let afterWhole := input.dropWhile isDigit
  let (fraction, afterFraction) :=
    match afterWhole with
    | [] => ([], [])
    | point :: rest =>
        if point = 0x2E then
          (rest.takeWhile isDigit, rest.dropWhile isDigit)
        else
          ([], afterWhole)
  if whole.isEmpty && fraction.isEmpty then
    takeSpecial? negative input
  else
    let (exponent, rest) := takeExponent afterFraction
    some
      (toBinary64 negative (naturalOf (whole ++ fraction))
        (exponent - fraction.length), rest)

/-- A number with an optional sign at the head of the input, and what
follows. -/
def takeSigned? (input : Bytes) : Option (Binary64 × Bytes) :=
  match input with
  | [] => none
  | sign :: rest =>
      if sign = 0x2D then takeUnsigned? true rest
      else if sign = 0x2B then takeUnsigned? false rest
      else takeUnsigned? false input

/-- Removes underscores, each of which must stand between two digits. -/
def ungroupAfter? (previous : UInt8) : Bytes → Option Bytes
  | [] => if previous = 0x5F then none else some []
  | byte :: rest =>
      if byte = 0x5F then
        if isDigit previous then ungroupAfter? byte rest else none
      else if previous = 0x5F && !isDigit byte then
        none
      else
        (ungroupAfter? byte rest).map (byte :: ·)

def ungroup? (input : Bytes) : Option Bytes :=
  ungroupAfter? 0 input

/-- A whole line read as a number, surrounding blanks ignored. -/
def parse? (line : Bytes) : Option Binary64 := do
  let (number, rest) ← takeSigned? (← ungroup? (Integer.trim line))
  guard rest.isEmpty
  return number

/-! ## Writing -/

/-- The number of digits before the decimal point; zero or negative below one
tenth. -/
def pointPosition (numerator denominator : Nat) : Int :=
  let guess : Int :=
    ((Nat.toDigits 10 numerator).length : Int) -
      (Nat.toDigits 10 denominator).length
  let reached :=
    if 0 ≤ guess then
      denominator * 10 ^ guess.toNat ≤ numerator
    else
      denominator ≤ numerator * 10 ^ (-guess).toNat
  if reached then guess + 1 else guess

/-- The multiple of `10 ^ power` next below a quotient, as a count, and twice
the distance to it compared with the distance to the next one above. -/
def gridBelow (numerator denominator : Nat) (power : Int) : Nat × Bool :=
  let (top, bottom) :=
    if 0 ≤ power then
      (numerator, denominator * 10 ^ power.toNat)
    else
      (numerator * 10 ^ (-power).toNat, denominator)
  (top / bottom, 2 * (top % bottom) ≤ bottom)

/-- The multiple of `10 ^ power` nearest to a number of those that read back,
as a count. -/
def gridPoint? (x : Binary64) (power : Int) : Option Nat :=
  let (numerator, denominator) := x.ratio
  let (below, lowerNearer) := gridBelow numerator denominator power
  let readsBack (count : Nat) : Bool :=
    toBinary64 x.negative count power == x
  let candidates :=
    if lowerNearer then [below, below + 1] else [below + 1, below]
  candidates.find? readsBack

/-- The first count of digits, up to seventeen, whose grid has a point that
reads back: that point and the power of ten of the grid. -/
def shortest (x : Binary64) : Nat × Int :=
  let (numerator, denominator) := x.ratio
  let position := pointPosition numerator denominator
  let found := (List.range 17).findSome? fun (count : Nat) =>
    let power := position - (count + 1)
    (gridPoint? x power).map fun point => (point, power)
  found.getD (0, 0)

def dropTrailingZeros (digits : List Char) : List Char :=
  (digits.reverse.dropWhile (· == '0')).reverse

/-- The digits of a nonzero finite number without trailing zeros, and the
position of the decimal point among them. -/
def shortestDigits (x : Binary64) : List Char × Int :=
  let (point, power) := shortest x
  let digits := Nat.toDigits 10 point
  (dropTrailingZeros digits, digits.length + power)

def exponentText (exponent : Int) : List Char :=
  let digits := Nat.toDigits 10 exponent.natAbs
  (if exponent < 0 then '-' else '+') ::
    ((if digits.length < 2 then ['0'] else []) ++ digits)

/-- Digits with a decimal point at the given position. `whole` is appended
when no fraction follows. -/
def positional (digits : List Char) (position : Int) (whole : List Char) :
    List Char :=
  if position ≤ 0 then
    '0' :: '.' :: (List.replicate (-position).toNat '0' ++ digits)
  else
    let size := position.toNat
    if digits.length ≤ size then
      digits ++ List.replicate (size - digits.length) '0' ++ whole
    else
      digits.take size ++ '.' :: digits.drop size

/-- Digits with one before the decimal point and an exponent. -/
def scientific (digits : List Char) (position : Int) : List Char :=
  let fraction := digits.drop 1
  digits.take 1 ++ (if fraction.isEmpty then [] else '.' :: fraction) ++
    'e' :: exponentText (position - 1)

/-- The magnitude of a number; numbers from `10 ^ -4` to below `10 ^ 16` are
positional. -/
def magnitudeText (x : Binary64) (whole : List Char) : List Char :=
  if x.isNaN then
    ['n', 'a', 'n']
  else if !x.isFinite then
    ['i', 'n', 'f']
  else
    let (digits, position) :=
      if x.isZero then (['0'], 1) else shortestDigits x
    if -4 < position ∧ position ≤ 16 then
      positional digits position whole
    else
      scientific digits position

def signedText (x : Binary64) (whole : List Char) : List Char :=
  (if x.negative && !x.isNaN then ['-'] else []) ++ magnitudeText x whole

/-- A number in the fewest digits, always with a point or an exponent. -/
def toString (x : Binary64) : String :=
  String.ofList (signedText x ['.', '0'])

/-- The sum of a real and an imaginary part, in parentheses unless the real
part is positive zero. -/
def complexToString (real imaginary : Binary64) : String :=
  let imaginaryText := signedText imaginary [] ++ ['j']
  if real == Binary64.zero false then
    String.ofList imaginaryText
  else
    let sign :=
      if imaginary.negative && !imaginary.isNaN then [] else ['+']
    String.ofList
      ('(' :: (signedText real [] ++ sign ++ imaginaryText ++ [')']))

end PickleGraph.Decimal
