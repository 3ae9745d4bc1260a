import PickleGraph.Dtype.Basic
import PickleGraph.Failure

/-!
# Type codes

A single element type is written as a letter, as a letter with a length, or as
a name. A mark of byte order may stand before a letter. Times carry their unit
in brackets. Every malformed code is refused alike.
-/

namespace PickleGraph.Dtype

/-! ## Letters and names -/

abbrev Sized := ElementKind × Nat

def letterTable : List (Char × Sized) :=
  [('?', .boolean, 1), ('b', .signed, 1), ('B', .unsigned, 1),
    ('h', .signed, 2), ('H', .unsigned, 2), ('i', .signed, 4),
    ('I', .unsigned, 4), ('l', .signed, 8), ('L', .unsigned, 8),
    ('q', .signed, 8), ('Q', .unsigned, 8), ('f', .float, 4),
    ('d', .float, 8), ('g', .float, 16), ('F', .complex, 8),
    ('D', .complex, 16), ('G', .complex, 32), ('O', .object, 8),
    ('S', .bytes, 0), ('U', .text, 0), ('V', .void, 0),
    ('M', .datetime, 8), ('m', .timedelta, 8), ('e', .float, 2),
    ('a', .bytes, 0), ('c', .bytes, 1), ('p', .signed, 8),
    ('P', .unsigned, 8), ('n', .signed, 8), ('N', .unsigned, 8),
    ('T', .variableText, 16)]

/-- The number of element types that also have their position in the table
as a code. -/
def numberedTypes : Nat := 24

def ofLetter? (letter : Char) : Option Sized :=
  if letter.toNat < numberedTypes then
    (letterTable[letter.toNat]?).map (·.2)
  else
    letterTable.lookup letter

def sizedTable : List ((Char × Nat) × Sized) :=
  [(('b', 1), .boolean, 1),
    (('i', 1), .signed, 1), (('i', 2), .signed, 2),
    (('i', 4), .signed, 4), (('i', 8), .signed, 8),
    (('u', 1), .unsigned, 1), (('u', 2), .unsigned, 2),
    (('u', 4), .unsigned, 4), (('u', 8), .unsigned, 8),
    (('f', 2), .float, 2), (('f', 4), .float, 4), (('f', 8), .float, 8),
    (('f', 16), .float, 16), (('c', 8), .complex, 8),
    (('c', 16), .complex, 16), (('c', 32), .complex, 32),
    (('O', 4), .object, 8), (('O', 8), .object, 8)]

def nameTable : List (String × Sized) :=
  [("bool", .boolean, 1), ("bool_", .boolean, 1),
    ("byte", .signed, 1), ("int8", .signed, 1),
    ("ubyte", .unsigned, 1), ("uint8", .unsigned, 1),
    ("short", .signed, 2), ("int16", .signed, 2),
    ("ushort", .unsigned, 2), ("uint16", .unsigned, 2),
    ("intc", .signed, 4), ("int32", .signed, 4),
    ("uintc", .unsigned, 4), ("uint32", .unsigned, 4),
    ("long", .signed, 8), ("longlong", .signed, 8),
    ("int64", .signed, 8), ("intp", .signed, 8), ("int", .signed, 8),
    ("int_", .signed, 8),
    ("ulong", .unsigned, 8), ("ulonglong", .unsigned, 8),
    ("uint64", .unsigned, 8), ("uintp", .unsigned, 8),
    ("uint", .unsigned, 8),
    ("half", .float, 2), ("float16", .float, 2),
    ("single", .float, 4), ("float32", .float, 4),
    ("double", .float, 8), ("float64", .float, 8), ("float", .float, 8),
    ("longdouble", .float, 16), ("float128", .float, 16),
    ("csingle", .complex, 8), ("complex64", .complex, 8),
    ("cdouble", .complex, 16), ("complex128", .complex, 16),
    ("complex", .complex, 16),
    ("clongdouble", .complex, 32), ("complex256", .complex, 32),
    ("object", .object, 8), ("object_", .object, 8),
    ("bytes", .bytes, 0), ("bytes_", .bytes, 0),
    ("str", .text, 0), ("str_", .text, 0), ("unicode", .text, 0),
    ("void", .void, 0)]

/-! ## Units of time -/

def genericUnit : String := "generic"

def unitName? (name : String) : Option String :=
  if name = "μs" then some "us"
  else if name = genericUnit then some genericUnit
  else unitNames.find? (· == name)

/-- How many of each of the next finer units make one unit. -/
def finerUnits (name : String) : List (Nat × String) :=
  match name with
  | "Y" => [(12, "M"), (52, "W"), (365, "D")]
  | "M" => [(4, "W"), (30, "D"), (720, "h")]
  | "W" => [(7, "D"), (168, "h"), (10080, "m")]
  | "D" => [(24, "h"), (1440, "m"), (86400, "s")]
  | "h" => [(60, "m"), (3600, "s")]
  | "m" => [(60, "s"), (60000, "ms")]
  | _ =>
      [1000, 1000000].zip
        ((unitNames.dropWhile (· != name)).drop 1)

/-- Whether a character counts as space before a number. -/
def isSpace (character : Char) : Bool :=
  character == ' ' || (0x09 ≤ character.toNat && character.toNat ≤ 0x0D)

/-- A decimal number at the head of the input, after spaces and a sign, and
what follows. -/
def takeInteger? (input : List Char) : Option (Int × List Char) :=
  let (negative, unsigned) :=
    match input.dropWhile isSpace with
    | '-' :: rest => (true, rest)
    | '+' :: rest => (false, rest)
    | rest => (false, rest)
  let digits := unsigned.takeWhile Char.isDigit
  if digits.isEmpty then
    none
  else
    let magnitude : Nat := digits.foldl
      (fun number digit => number * 10 + (digit.toNat - 0x30)) 0
    some (if negative then -(magnitude : Int) else magnitude,
      unsigned.dropWhile Char.isDigit)

/-- A unit divided into equal parts that are multiples of a finer unit. -/
def divideUnit (count : Int) (name : String) (divisor : Int) :
    Except Refusal (Int × String) :=
  if divisor = 1 then
    .ok (count, name)
  else if name = genericUnit ∨ divisor = 0 then
    .error .badValue
  else
    match (finerUnits name).find?
        fun entry => (entry.1 : Int) % divisor == 0 with
    | some (parts, finer) => .ok (count * (parts / divisor), finer)
    | none => .error .badValue

def maxInt : Int := 2 ^ 31 - 1

/-- A multiple of the unit with a name. A type with the generic unit has no
unit. -/
def unitOf (count : Int) (name : String) : Option TimeUnit :=
  if isKnown : name ∈ unitNames then some ⟨count, name, isKnown⟩ else none

/-- A multiple of a unit, perhaps divided. -/
def unitOfBody (body : List Char) : Except Refusal (Option TimeUnit) := do
  let (count, afterCount) := (takeInteger? body).getD (1, body)
  if count < 0 ∨ maxInt < count then
    .error .wrongType
  let name := afterCount.takeWhile (· != '/')
  let some unit := unitName? (String.ofList name)
    | .error .wrongType
  let (count, unit) ←
    match afterCount.dropWhile (· != '/') with
    | [] => pure (count, unit)
    | _ :: divisor =>
        match takeInteger? divisor with
        | some (number, []) => divideUnit count unit number
        | _ => .error .wrongType
  return unitOf count unit

def unitOfSuffix (suffix : List Char) :
    Except Refusal (Option TimeUnit) :=
  match suffix with
  | [] => .ok none
  | '[' :: rest =>
      let body := rest.takeWhile (· != ']')
      if rest.dropWhile (· != ']') = [']'] ∧ !body.isEmpty then
        unitOfBody body
      else
        .error .wrongType
  | _ => .error .wrongType

/-- What follows the beginning of the code of a kind of time. -/
def timeSuffix? (code : List Char) : Option (ElementKind × List Char) :=
  let starts : List (String × ElementKind) :=
    [("M8", .datetime), ("m8", .timedelta), ("datetime64", .datetime),
      ("timedelta64", .timedelta)]
  starts.findSome? fun (start, kind) =>
    if start.toList.isPrefixOf code then
      some (kind, code.drop start.length)
    else
      none

/-! ## Elements -/

/-- A letter with a length, for kinds of any length, or with a size. -/
def ofSized? (letter : Char) (size : Nat) : Option Sized :=
  match letter with
  | 'S' | 'a' => some (.bytes, size)
  | 'V' => some (.void, size)
  | 'U' =>
      if (size : Int) ≤ maxInt / 4 then some (.text, 4 * size) else none
  | _ => sizedTable.lookup (letter, size)

/-- A code without a mark of byte order; `whole` is the code with it. A name
admits no mark. -/
def sizedOf? (code whole : List Char) : Option Sized :=
  let named := nameTable.lookup (String.ofList whole)
  match code with
  | [] => none
  | [letter] => ofLetter? letter <|> named
  | letter :: rest =>
      match takeInteger? rest with
      | some (size, after) =>
          if size < 0 ∨ maxInt < size then none
          else if after = [] then ofSized? letter size.toNat <|> named
          else named
      | none => named

def isOrderMark (character : Char) : Bool :=
  "<>=|".toList.contains character

def ofElementCode (whole : List Char) : Except Refusal Dtype := do
  let (bigEndian, code) :=
    match whole with
    | mark :: rest =>
        if isOrderMark mark then (mark == '>', rest) else (false, whole)
    | [] => (false, [])
  match timeSuffix? code with
  | some (kind, suffix) => do
      let unit ← unitOfSuffix suffix
      return ofElement kind 8 bigEndian unit
  | none =>
      match sizedOf? code whole with
      | some (kind, size) => .ok (ofElement kind size bigEndian none)
      | none => .error .wrongType

end PickleGraph.Dtype
