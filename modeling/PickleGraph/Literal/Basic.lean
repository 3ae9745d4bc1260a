import PickleGraph.Literal.Quoted
import PickleGraph.Value.Key

/-!
# Literals

A literal is a constant, a container of literals, or a sum of a real and an
imaginary numeral. Reading yields a tree whose parentheses are gone; evaluation
yields the value, unless the tree denotes none.
-/

namespace PickleGraph

inductive Literal
  | noneValue
  | ellipsis
  | bool (value : Bool)
  | int (value : Nat)
  | float (value : Binary64)
  | imaginary (value : Binary64)
  | str (text : Text)
  | bytes (content : Bytes)
  | tuple (items : List Literal)
  | list (items : List Literal)
  | set (members : List Literal)
  | dict (entries : List (Literal × Literal))
  | setType
  | emptySet
  | plus (operand : Literal)
  | minus (operand : Literal)
  | sum (left right : Literal)
  | difference (left right : Literal)
  deriving Inhabited

namespace Literal

/-! ## Reading -/

/-- Further quoted texts of the same kind directly after one. -/
def takeTexts? (text : Text) : List Token → Option (Text × List Token)
  | .str next :: rest => takeTexts? (text ++ next) rest
  | .bytes _ :: _ => none
  | rest => some (text, rest)

def takeBytes? (content : Bytes) :
    List Token → Option (Bytes × List Token)
  | .bytes next :: rest => takeBytes? (content ++ next) rest
  | .str _ :: _ => none
  | rest => some (content, rest)

def constant? : Token → Option Literal
  | .int value => some (.int value)
  | .float value => some (.float value)
  | .imaginary value => some (.imaginary value)
  | .ellipsis => some .ellipsis
  | .name .noneValue => some .noneValue
  | .name .trueValue => some (.bool true)
  | .name .falseValue => some (.bool false)
  | .name .setType => some .setType
  | _ => none

/-- A call of the type of sets without arguments, where one follows. -/
def callEmpty (literal : Literal) (rest : List Token) :
    Literal × List Token :=
  match literal, rest with
  | .setType, .opening .round :: .closing .round :: rest =>
      (.emptySet, rest)
  | _, _ => (literal, rest)

mutual

/-- A sum of signed operands. The steps bound the depth of the descent. -/
def takeSum? : (steps : Nat) → List Token →
    Option (Literal × List Token)
  | 0, _ => none
  | steps + 1, tokens => do
      let (left, rest) ← takeSigned? steps tokens
      takeTerms? steps left rest

/-- Further terms of a sum. -/
def takeTerms? : (steps : Nat) → Literal → List Token →
    Option (Literal × List Token)
  | 0, _, _ => none
  | steps + 1, left, .plus :: rest => do
      let (right, rest) ← takeSigned? steps rest
      takeTerms? steps (.sum left right) rest
  | steps + 1, left, .minus :: rest => do
      let (right, rest) ← takeSigned? steps rest
      takeTerms? steps (.difference left right) rest
  | _ + 1, left, rest => some (left, rest)

def takeSigned? : (steps : Nat) → List Token →
    Option (Literal × List Token)
  | 0, _ => none
  | steps + 1, .plus :: rest =>
      (takeSigned? steps rest).map fun (operand, rest) =>
        (.plus operand, rest)
  | steps + 1, .minus :: rest =>
      (takeSigned? steps rest).map fun (operand, rest) =>
        (.minus operand, rest)
  | steps + 1, tokens =>
      (takeAtom? steps tokens).map fun (atom, rest) => callEmpty atom rest

/-- A constant, quoted texts, or a group in brackets. -/
def takeAtom? : (steps : Nat) → List Token →
    Option (Literal × List Token)
  | 0, _ => none
  | _ + 1, [] => none
  | steps + 1, token :: rest =>
      match token with
      | .str text =>
          (takeTexts? text rest).map fun (text, rest) => (.str text, rest)
      | .bytes content =>
          (takeBytes? content rest).map fun (content, rest) =>
            (.bytes content, rest)
      | .opening .round => do
          let (items, separated, rest) ← takeItems? steps .round rest
          match items, separated with
          | [item], false => return (item, rest)
          | items, _ => return (.tuple items, rest)
      | .opening .square => do
          let (items, _, rest) ← takeItems? steps .square rest
          return (.list items, rest)
      | .opening .curly =>
          match rest with
          | .closing .curly :: rest => some (.dict [], rest)
          | _ => do
              let (first, rest) ← takeSum? steps rest
              match rest with
              | .colon :: rest => do
                  let (value, rest) ← takeSum? steps rest
                  let (entries, rest) ← takeMoreEntries? steps rest
                  return (.dict ((first, value) :: entries), rest)
              | _ => do
                  let (members, rest) ← takeMoreItems? steps .curly rest
                  return (.set (first :: members), rest)
      | _ => (constant? token).map fun literal => (literal, rest)

/-- Items up to a closing bracket, and whether a comma was among them. -/
def takeItems? : (steps : Nat) → Bracket → List Token →
    Option (List Literal × Bool × List Token)
  | 0, _, _ => none
  | steps + 1, bracket, tokens =>
      match tokens with
      | .closing other :: rest =>
          if other = bracket then some ([], false, rest) else none
      | _ => do
          let (item, rest) ← takeSum? steps tokens
          let separated := rest.head? == some .comma
          let (items, rest) ← takeMoreItems? steps bracket rest
          return (item :: items, separated, rest)

/-- What follows an item up to a closing bracket. -/
def takeMoreItems? : (steps : Nat) → Bracket → List Token →
    Option (List Literal × List Token)
  | 0, _, _ => none
  | steps + 1, bracket, tokens =>
      match tokens with
      | .closing other :: rest | .comma :: .closing other :: rest =>
          if other = bracket then some ([], rest) else none
      | .comma :: rest => do
          let (item, rest) ← takeSum? steps rest
          let (items, rest) ← takeMoreItems? steps bracket rest
          return (item :: items, rest)
      | _ => none

/-- What follows an entry of a mapping up to its closing bracket. -/
def takeMoreEntries? : (steps : Nat) → List Token →
    Option (List (Literal × Literal) × List Token)
  | 0, _ => none
  | steps + 1, tokens =>
      match tokens with
      | .closing .curly :: rest
      | .comma :: .closing .curly :: rest => some ([], rest)
      | .comma :: rest => do
          let (key, rest) ← takeSum? steps rest
          match rest with
          | .colon :: rest => do
              let (value, rest) ← takeSum? steps rest
              let (entries, rest) ← takeMoreEntries? steps rest
              return ((key, value) :: entries, rest)
          | _ => none
      | _ => none

end

/-- Items without brackets, which form a tuple where there is a comma. -/
def takeLine? (steps : Nat) (tokens : List Token) : Option Literal := do
  let (items, separated, rest) ←
    takeItems? steps .round (tokens ++ [.closing .round])
  guard (rest.isEmpty && !items.isEmpty)
  match items, separated with
  | [item], false => return item
  | items, _ => return .tuple items

/-- Every token costs at most this many steps of the descent. -/
def stepsPerToken : Nat := 8

def parse? (names : CharacterNames) (text : Text) : Option Literal := do
  let tokens ← tokens? names text
  takeLine? (stepsPerToken * (tokens.length + 2)) tokens

/-! ## Evaluation -/

/-- A numeral with its signs: nothing else has a sign or is part of a sum. -/
def numeral? : Literal → Option Number
  | int value => some (.int value)
  | float value => some (.real value)
  | imaginary value => some (.complex (Binary64.zero false) value)
  | _ => none

def Number.negate : Number → Number
  | .int value => .int (-value)
  | .real value => .real ⟨value.bits ^^^ 0x8000000000000000⟩
  | .complex re im =>
      .complex ⟨re.bits ^^^ 0x8000000000000000⟩
        ⟨im.bits ^^^ 0x8000000000000000⟩

def signedNumeral? : Literal → Option Number
  | plus operand => numeral? operand
  | minus operand => (numeral? operand).map Number.negate
  | literal => numeral? literal

/-- The real part of a sum as a floating-point number. -/
def realPart (left : Literal) : Except Refusal Binary64 :=
  match signedNumeral? left with
  | some (.int value) =>
      match Binary64.ofInt? value with
      | some number => .ok number
      | none => .error .outOfRange
  | some (.real value) => .ok value
  | _ => .error .badValue

/-- A real numeral and an imaginary one added or subtracted. -/
def complexValue
    (combine : Binary64 → Binary64 → Binary64) (left right : Literal)
    (heap : Heap) : Except Refusal (Value × Heap) := do
  let some (.complex re im) := numeral? right | .error .badValue
  let real ← realPart left
  return heap.complex (combine real re) (combine (Binary64.zero false) im)

def numberValue (number : Option Number) (heap : Heap) :
    Except Refusal (Value × Heap) :=
  match number with
  | some (.int value) => .ok (.int value, heap)
  | some (.real value) => .ok (heap.float value)
  | some (.complex re im) => .ok (heap.complex re im)
  | none => .error .badValue

def setValue (members : List Value) (heap : Heap) :
    Except Refusal (Value × Heap) := do
  members.forM heap.checkHashable
  return heap.alloc (.set (Members.merge [] members))

/-- The value of a literal; its containers are new objects. -/
def evaluate : Literal → Heap → Except Refusal (Value × Heap)
  | noneValue, heap => .ok (.none, heap)
  | ellipsis, heap => .ok (.ellipsis, heap)
  | bool value, heap => .ok (.bool value, heap)
  | str text, heap => .ok (.str text, heap)
  | bytes content, heap => .ok (.bytes content, heap)
  | tuple items, heap => do
      let (items, heap) ← evaluateAll items heap
      return (.tuple items, heap)
  | list items, heap => do
      let (items, heap) ← evaluateAll items heap
      return heap.alloc (.list items.toArray)
  | set members, heap => do
      let (members, heap) ← evaluateAll members heap
      setValue members heap
  | dict entries, heap => do
      let (entries, heap) ← evaluateEntries entries heap
      (entries.map (·.1)).forM heap.checkHashable
      return heap.alloc (.dict false (Entries.merge [] entries))
  | emptySet, heap => .ok (heap.alloc (.set []))
  | setType, _ => .error .badValue
  | sum left right, heap => complexValue Binary64.add left right heap
  | difference left right, heap =>
      complexValue Binary64.sub left right heap
  | literal, heap => numberValue (signedNumeral? literal) heap
where
  evaluateAll : List Literal → Heap → Except Refusal (List Value × Heap)
    | [], heap => .ok ([], heap)
    | item :: items, heap => do
        let (value, heap) ← evaluate item heap
        let (values, heap) ← evaluateAll items heap
        return (value :: values, heap)
  evaluateEntries : List (Literal × Literal) → Heap →
      Except Refusal (List (Value × Value) × Heap)
    | [], heap => .ok ([], heap)
    | (key, value) :: entries, heap => do
        let (key, heap) ← evaluate key heap
        let (value, heap) ← evaluate value heap
        let (others, heap) ← evaluateEntries entries heap
        return ((key, value) :: others, heap)

end Literal

end PickleGraph
