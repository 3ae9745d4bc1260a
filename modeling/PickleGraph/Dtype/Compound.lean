import PickleGraph.Dtype.Code
import PickleGraph.Literal.Basic

/-!
# Compound types

A type is repeated to a subarray by a count or a shape, and types are laid out
as the fields of a structure. A list of codes with repetitions in front of them
describes a structure whose fields have numbered names.
-/

namespace PickleGraph.Dtype

/-! ## Subarrays -/

def maxDimensions : Nat := 64

/-- A number that must fit the width of sizes. -/
def checkInt (number : Int) : Except Refusal Int :=
  if number < -2 ^ 63 ∨ 2 ^ 63 ≤ number then .error .outOfRange
  else if number < -2 ^ 31 ∨ 2 ^ 31 ≤ number then .error .badValue
  else .ok number

/-- A type of unspecified size given a length. -/
def withLength (base : Dtype) (length : Int) : Except Refusal Dtype := do
  let length ← checkInt length
  if length < 0 then
    .error .badValue
  else
    match base with
    | element .text _ bigEndian _ =>
        if length ≤ maxInt / 4 then
          return ofElement .text (4 * length.toNat) bigEndian none
        else
          .error .badValue
    | element kind _ bigEndian unit =>
        return element kind length.toNat bigEndian unit
    | _ => return element .void length.toNat false none

/-- A subarray whose extents are small enough. -/
def withShape (base : Dtype) (extents : List Int) :
    Except Refusal Dtype :=
  let inRange (number : Int) : Bool := 0 ≤ number && number ≤ maxInt
  let count := extents.foldl (· * ·) 1
  if maxDimensions < extents.length ∨ !extents.all inRange ∨
      maxInt < count ∨ maxInt < base.itemSize * count then
    .error .badValue
  else
    .ok (subarray base (extents.map Int.toNat))

/-- A type with a number: a length where none is fixed, or a count. -/
def repeated (base : Dtype) (count : Int) : Except Refusal Dtype :=
  if base.isUnsized then
    base.withLength count
  else if count = 1 then
    .ok base
  else
    base.withShape [count]

/-- A type with the extents of a subarray; no extents change nothing. -/
def reshaped (base : Dtype) (extents : List Int) : Except Refusal Dtype :=
  if base.isUnsized then
    .error .wrongType
  else if extents.isEmpty then
    .ok base
  else
    base.withShape extents

/-! ## Structures -/

/-- Texts of variable length are no fields. -/
def checkField (type : Dtype) : Except Refusal Unit :=
  match type with
  | element .variableText _ _ _ => .error .wrongType
  | _ => .ok ()

/-- Fields one after the other from an offset on. -/
def placed (offset : Nat) :
    List (Text × Dtype) → List (Text × Nat × Dtype)
  | [] => []
  | (name, type) :: rest =>
      (name, offset, type) :: placed (offset + type.itemSize) rest

def packed (fields : List (Text × Dtype)) : Dtype :=
  struct (placed 0 fields)
    (fields.foldl (fun size field => size + field.2.itemSize) 0)

/-- The name of a field that has none. -/
def fieldName (index : Nat) : Text :=
  Text.ofString ("f" ++ toString index)

/-- A structure of fields that are only numbered. -/
def numbered (types : List Dtype) : Except Refusal Dtype := do
  types.forM checkField
  let names := (List.range types.length).map fieldName
  return packed (names.zip types)

/-! ## Lists of codes -/

/-- How often a code is repeated. -/
inductive Repetition
  | once
  | count (number : Int)
  | shape (extents : List Int)
  deriving DecidableEq, Repr

/-- Whether a code stands for a list of codes: it starts with a repetition or
has a comma outside brackets. -/
def isCodeList (code : List Char) : Bool :=
  let unmarked :=
    match code with
    | mark :: rest => if isOrderMark mark then rest else code
    | [] => []
  let startsRepeated (text : List Char) : Bool :=
    match text with
    | first :: rest =>
        first.isDigit || (first == '(' && rest.head? == some ')')
    | [] => false
  startsRepeated code || startsRepeated unmarked || hasComma 0 code
where
  hasComma (depth : Int) : List Char → Bool
    | [] => false
    | ',' :: rest => depth == 0 || hasComma depth rest
    | '[' :: rest => hasComma (depth + 1) rest
    | ']' :: rest => hasComma (depth - 1) rest
    | _ :: rest => hasComma depth rest

def takeOrder (input : List Char) : Option Char × List Char :=
  match input with
  | mark :: rest =>
      if isOrderMark mark then (some mark, rest) else (none, input)
  | [] => (none, [])

def isRepetitionPart (character : Char) : Bool :=
  character == ' ' || character == ',' || character.isDigit

def takeRepetition (input : List Char) : List Char × List Char :=
  let (spaces, rest) := input.span (· == ' ')
  let (opening, rest) := optional '(' rest
  let (body, rest) := rest.span isRepetitionPart
  let (closing, rest) := optional ')' rest
  let (trailing, rest) := rest.span (· == ' ')
  (spaces ++ opening ++ body ++ closing ++ trailing, rest)
where
  optional (character : Char) : List Char → List Char × List Char
    | [] => ([], [])
    | first :: rest =>
        if first == character then ([first], rest) else ([], first :: rest)

def isCodePart (character : Char) : Bool :=
  character.isAlphanum || character == '.' || character == '?'

def takeCode (input : List Char) : List Char × List Char :=
  let (code, rest) := input.span isCodePart
  match rest with
  | '[' :: inner =>
      let (body, after) := inner.span fun character =>
        character.isAlphanum || character == ',' || character == '.'
      match after with
      | ']' :: after => (code ++ '[' :: body ++ [']'], after)
      | _ => (code, rest)
  | _ => (code, rest)

/-- One mark of byte order out of two; opposite marks are refused. -/
def joinOrders (before after : Option Char) :
    Except Refusal (Option Char) :=
  let resolve (mark : Char) : Char := if mark == '=' then '<' else mark
  match before, after with
  | some first, some second =>
      if resolve first = resolve second then
        .ok (some (resolve first))
      else
        .error .badValue
  | some mark, none | none, some mark => .ok (some mark)
  | none, none => .ok none

def repetitionOf (text : List Char) : Except Refusal Repetition :=
  if text.isEmpty then
    .ok .once
  else
    match Literal.parse? (fun _ => none) (Text.ofString (String.ofList text)) with
    | some (.int number) => .ok (.count number)
    | some (.tuple items) =>
        match items.mapM natural? with
        | some extents => .ok (.shape extents)
        | none => .error .badNotation
    | _ => .error .badNotation
where
  natural? : Literal → Option Int
    | .int number => some number
    | _ => none

/-- What separates two codes, or ends the list: whether there is more, and what
follows. -/
def takeSeparator (input : List Char) :
    Except Refusal (Bool × List Char) :=
  match input.dropWhile isSpace with
  | [] => .ok (false, [])
  | ',' :: rest => .ok (true, rest.dropWhile isSpace)
  | _ => .error .badValue

/-- The repeated codes of a list, and whether there is a separator. -/
def codeItems : (steps : Nat) → List Char →
    Except Refusal (List (List Char × Repetition) × Bool)
  | 0, _ => .ok ([], false)
  | _ + 1, [] => .ok ([], false)
  | steps + 1, input => do
      let (before, rest) := takeOrder input
      let (repetition, rest) := takeRepetition rest
      let (after, rest) := takeOrder rest
      let (code, rest) := takeCode rest
      let (separated, rest) ← takeSeparator rest
      let order ← joinOrders before after
      let marked := if order = some '>' then '>' :: code else code
      let repetition ← repetitionOf repetition
      let (others, more) ← codeItems steps rest
      return ((marked, repetition) :: others, separated || more)

/-- An empty code at the end of a list counts for nothing. -/
def dropEmptyLast (items : List (List Char × Repetition)) :
    List (List Char × Repetition) :=
  if items.getLast? = some ([], .once) then items.dropLast else items

/-- The type of a code or of a list of codes. The depth bounds how often a code
holds another list. -/
def ofCharacters : (depth : Nat) → List Char → Except Refusal Dtype
  | 0, _ => .error .wrongType
  | depth + 1, code =>
      if isCodeList code then do
        let (items, separated) ← codeItems code.length code
        let repeatedType (item : List Char × Repetition) :
            Except Refusal Dtype := do
          let base ← ofCharacters depth item.1
          match item.2 with
          | .once => return base
          | .count number => base.repeated number
          | .shape extents => base.reshaped extents
        if separated then
          let items := dropEmptyLast items
          if items.isEmpty then
            .error .badValue
          else
            numbered (← items.mapM repeatedType)
        else
          match items with
          | [item] => repeatedType item
          | _ => .error .badValue
      else
        ofElementCode code

def ofText (text : Text) : Except Refusal Dtype :=
  match Text.toString? text with
  | none => .error .unencodable
  | some code => ofCharacters (code.length + 1) code.toList

end PickleGraph.Dtype
