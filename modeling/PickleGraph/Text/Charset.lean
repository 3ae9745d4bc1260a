import PickleGraph.Text.Utf8

/-!
# Character sets

A character set is chosen by a name, and a recovery rule, also chosen by name,
says what happens to octets or code points that the set cannot express. A
recovery rule is looked up only when it is needed. The sets are ASCII, Latin-1 and
UTF-8; those that an interpreter knows besides are left out.
-/

namespace PickleGraph

inductive Charset
  | ascii
  | latin1
  | utf8
  deriving DecidableEq, Repr

/-- What to do with input that a character set cannot express. -/
inductive Recovery
  | strict
  | ignore
  | replace
  | backslash
  | surrogateEscape
  | surrogatePass
  | characterReference
  | characterName
  deriving DecidableEq, Repr

namespace Recovery

def names : List (String × Recovery) :=
  [("strict", strict), ("ignore", ignore), ("replace", replace),
    ("backslashreplace", backslash), ("surrogateescape", surrogateEscape),
    ("surrogatepass", surrogatePass),
    ("xmlcharrefreplace", characterReference),
    ("namereplace", characterName)]

def ofName? (name : Text) : Option Recovery := do
  List.lookup (← name.toString?) names

end Recovery

inductive CharsetFault
  | notName
  | unknownCharset
  | unknownRecovery
  /-- The recovery rule has no meaning in this direction. -/
  | unsuitableRecovery
  | undecodable
      (charset : Charset) (bytes : Bytes) (position : Nat) (reason : String)
  | unencodable
  deriving DecidableEq, Repr

namespace Charset

/-! ## Names -/

/-- Letters in lower case; runs of other characters than letters, digits and
points as one underscore. -/
def normalizeName (name : List Char) : List Char :=
  let rec go (pending : Bool) : List Char → List Char
    | [] => []
    | character :: rest =>
        if character.isAlphanum || character == '.' then
          (if pending then ['_'] else []) ++
            character.toLower :: go false rest
        else
          go true rest
  match name.dropWhile fun c => !(c.isAlphanum || c == '.') with
  | [] => []
  | first :: rest => go false (first :: rest)

def names : List (String × Charset) :=
  [("ascii", ascii), ("646", ascii), ("ansi_x3.4_1968", ascii),
    ("ansi_x3_4_1968", ascii), ("ansi_x3.4_1986", ascii), ("cp367", ascii),
    ("csascii", ascii), ("ibm367", ascii), ("iso646_us", ascii),
    ("iso_646.irv_1991", ascii), ("iso_ir_6", ascii), ("us", ascii),
    ("us_ascii", ascii),
    ("latin_1", latin1), ("8859", latin1), ("cp819", latin1),
    ("csisolatin1", latin1), ("ibm819", latin1), ("iso8859", latin1),
    ("iso8859_1", latin1), ("iso_8859_1", latin1),
    ("iso_8859_1_1987", latin1), ("iso_ir_100", latin1), ("l1", latin1),
    ("latin", latin1), ("latin1", latin1),
    ("utf_8", utf8), ("u8", utf8), ("utf", utf8), ("utf8", utf8),
    ("utf8_ucs2", utf8), ("utf8_ucs4", utf8), ("cp65001", utf8)]

/-- Whether a text can be a name at all, known or unknown: it has no zero and
no surrogate. -/
def isName (name : Text) : Bool :=
  name.all fun point => point.val ≠ 0 && !point.isSurrogate

/-- The character set of a name. Only three sets are modelled, under all their
names; the name of any other codec of the interpreter counts as unknown. -/
def ofName? (name : Text) : Option Charset := do
  guard (isName name)
  let characters ← name.mapM CodePoint.toChar?
  List.lookup (String.ofList (normalizeName characters)) names

/-- The name under which faults are reported. -/
def name : Charset → String
  | ascii => "ascii"
  | latin1 => "latin-1"
  | utf8 => "utf-8"

/-! ## Decoding -/

/-- One stretch of a byte string under a character set. -/
inductive Piece
  | point (point : CodePoint)
  | faulty (bytes : Bytes) (reason : String)
  deriving DecidableEq, Repr

def reasonText : Utf8.Reason → String
  | .invalidStart => "invalid start byte"
  | .invalidContinuation => "invalid continuation byte"
  | .unexpectedEnd => "unexpected end of data"

/-- The piece at the head of a non-empty byte string, and its width. -/
def nextPiece (charset : Charset) (lead : UInt8) (rest : Bytes) :
    Piece × Nat :=
  match charset with
  | latin1 => (.point (CodePoint.ofByte lead), 1)
  | ascii =>
      if lead < 0x80 then
        (.point (CodePoint.ofByte lead), 1)
      else
        (.faulty [lead] "ordinal not in range(128)", 1)
  | utf8 =>
      match Utf8.next lead rest with
      | .point point width => (.point point, width)
      | .fault width reason =>
          (.faulty ((lead :: rest).take width) (reasonText reason), width)

/-- At least `width` lower-case hexadecimal digits. -/
def hexDigits (width number : Nat) : List Char :=
  let digits := Nat.toDigits 16 number
  List.replicate (width - digits.length) '0' ++ digits

def backslashByte (byte : UInt8) : Text :=
  Text.ofString (String.ofList ('\\' :: 'x' :: hexDigits 2 byte.toNat))

/-- What a recovery rule puts in the place of undecodable octets. -/
def recoverBytes
    (charset : Charset) (recovery : Recovery)
    (position : Nat) (bytes : Bytes) (reason : String) :
    Except CharsetFault Text :=
  match recovery with
  | .strict | .surrogatePass =>
      .error (.undecodable charset bytes position reason)
  | .ignore => .ok []
  | .replace => .ok [0xFFFD]
  | .backslash => .ok (bytes.flatMap backslashByte)
  | .surrogateEscape =>
      .ok (bytes.map fun byte => Fin.ofNat _ (0xDC00 + byte.toNat))
  | .characterReference | .characterName => .error .unsuitableRecovery

def decodeFrom
    (charset : Charset) (recoveryName : Text) (position : Nat) :
    Bytes → Except CharsetFault Text
  | [] => .ok []
  | lead :: rest =>
      let (piece, width) := nextPiece charset lead rest
      let continued :=
        decodeFrom charset recoveryName (position + width)
          (rest.drop (width - 1))
      match piece with
      | .point point => continued.map (point :: ·)
      | .faulty bytes reason => do
          let some recovery := Recovery.ofName? recoveryName
            | .error .unknownRecovery
          match recovery, charset, Utf8.surrogate? (lead :: rest) with
          | .surrogatePass, utf8, some point =>
              let continued :=
                decodeFrom charset recoveryName (position + 3)
                  (rest.drop 2)
              return point :: (← continued)
          | _, _, _ =>
              let replacement ←
                recoverBytes charset recovery position bytes reason
              return replacement ++ (← continued)
termination_by bytes => bytes.length
decreasing_by
  all_goals simp only [List.length_drop, List.length_cons]; omega

/-- Decodes a byte string under the named character set and recovery rule. The
empty byte string needs neither. The name of the recovery rule counts only
where the rule is needed. -/
def decodeNamed
    (charsetName recoveryName : Text) (bytes : Bytes) :
    Except CharsetFault Text :=
  if !isName charsetName then
    .error .notName
  else if bytes.isEmpty then
    .ok []
  else
    match ofName? charsetName with
    | none => .error .unknownCharset
    | some charset => decodeFrom charset recoveryName 0 bytes

/-! ## Encoding -/

/-- The octets of a code point, if the set has it. -/
def encodePoint? (charset : Charset) (point : CodePoint) : Option Bytes :=
  match charset with
  | ascii =>
      if point.val < 0x80 then some [UInt8.ofNat point.val] else none
  | latin1 =>
      if point.val < 0x100 then some [UInt8.ofNat point.val] else none
  | utf8 =>
      if point.isSurrogate then none else some (Utf8.encodePoint point)

/-- A code point as the shortest fixed-width backslash escape. -/
def backslashPoint (point : CodePoint) : List Char :=
  if point.val < 0x100 then
    '\\' :: 'x' :: hexDigits 2 point.val
  else if point.val < 0x10000 then
    '\\' :: 'u' :: hexDigits 4 point.val
  else
    '\\' :: 'U' :: hexDigits 8 point.val

def characterReference (point : CodePoint) : List Char :=
  '&' :: '#' :: (Nat.toDigits 10 point.val ++ [';'])

/-- What a recovery rule puts in the place of an unencodable code point. -/
def recoverPoint
    (charset : Charset) (recovery : Recovery) (point : CodePoint) :
    Except CharsetFault Bytes :=
  match recovery with
  | .strict => .error .unencodable
  | .ignore => .ok []
  | .replace => .ok (Bytes.ofString "?")
  | .backslash | .characterName =>
      .ok (Bytes.ofString (String.ofList (backslashPoint point)))
  | .characterReference =>
      .ok (Bytes.ofString (String.ofList (characterReference point)))
  | .surrogateEscape =>
      if 0xDC80 ≤ point.val ∧ point.val ≤ 0xDCFF then
        .ok [UInt8.ofNat (point.val - 0xDC00)]
      else
        .error .unencodable
  | .surrogatePass =>
      if charset = utf8 then
        .ok (Utf8.encodePoint point)
      else
        .error .unencodable

def encode
    (charset : Charset) (recoveryName : Text) (text : Text) :
    Except CharsetFault Bytes := do
  let parts ← text.mapM fun point =>
    match encodePoint? charset point with
    | some bytes => .ok bytes
    | none =>
        match Recovery.ofName? recoveryName with
        | none => .error .unknownRecovery
        | some recovery => recoverPoint charset recovery point
  return parts.flatten

def encodeNamed
    (charsetName recoveryName : Text) (text : Text) :
    Except CharsetFault Bytes :=
  if !isName charsetName || !isName recoveryName then
    .error .notName
  else
    match ofName? charsetName with
    | none => .error .unknownCharset
    | some charset => encode charset recoveryName text

end Charset

end PickleGraph
