import PickleGraph.Construction.Parameters
import PickleGraph.NdArray.OfRecord
import PickleGraph.Number.Decimal

/-!
# Complex numbers

A complex number is made of a text such as `1-2j`, or of a real and an imaginary
part, each of which may be complex itself.
-/

namespace PickleGraph.Complex

/-! ## Texts -/

abbrev Parts := Binary64 × Binary64

def isUnit (byte : UInt8) : Bool :=
  byte = 0x6A || byte = 0x4A

def signedOne? (byte : UInt8) : Option Binary64 :=
  if byte = 0x2B then some (Binary64.ofRatio false 1 1)
  else if byte = 0x2D then some (Binary64.ofRatio true 1 1)
  else none

/-- An imaginary part after a sign, whose number may be missing. -/
def takeImaginary? (input : Bytes) : Option (Binary64 × Bytes) := do
  let (number, rest) ←
    match Decimal.takeSigned? input with
    | some found => some found
    | none =>
        match input with
        | sign :: rest => (signedOne? sign).map fun one => (one, rest)
        | [] => none
  match rest with
  | mark :: rest =>
      guard (isUnit mark)
      return (number, rest)
  | [] => none

def startsWithSign : Bytes → Bool
  | first :: _ => (signedOne? first).isSome
  | [] => false

/-- A number, a number and an imaginary part, or an imaginary part alone. -/
def takeParts? (input : Bytes) : Option (Parts × Bytes) :=
  let zero := Binary64.zero false
  match Decimal.takeSigned? input with
  | some (number, rest) =>
      if startsWithSign rest then
        (takeImaginary? rest).map fun (imaginary, rest) =>
          ((number, imaginary), rest)
      else
        match rest with
        | mark :: after =>
            if isUnit mark then some ((zero, number), after)
            else some ((number, zero), rest)
        | [] => some ((number, zero), rest)
  | none =>
      match input with
      | first :: after =>
          if isUnit first then
            some ((zero, Binary64.ofRatio false 1 1), after)
          else
            (takeImaginary? input).map fun (imaginary, rest) =>
              ((zero, imaginary), rest)
      | [] => none

/-- Parts that may stand in parentheses, and blanks around them. -/
def parseLine? (line : Bytes) : Option Parts :=
  let input := Integer.trim line
  match input with
  | 0x28 :: inner => do
      let (parts, rest) ← takeParts? (inner.dropWhile Integer.isBlank)
      guard (rest.dropWhile Integer.isBlank = [0x29])
      return parts
  | _ => do
      let (parts, rest) ← takeParts? input
      guard rest.isEmpty
      return parts

def parse? (text : Text) : Option Parts := do
  parseLine? (← Decimal.ungroup? text.numeralOctets)

/-! ## Parts -/

/-- A value as a number; an array stands for its only element. -/
def numberOf? (heap : Heap) (value : Value) : Option Number :=
  match heap.array? value with
  | some array =>
      match array.content with
      | .raw data =>
          if array.size = 1 then (Value.scalar array.type data).number?
          else none
      | .items [item] => item.number?
      | .items _ => none
  | none => value.number?

/-- A number as a real part and an imaginary part, if it has one. -/
def partsOf : Number → Except Refusal (Binary64 × Option Binary64)
  | .int number =>
      match Binary64.ofInt? number with
      | some real => .ok (real, none)
      | none => .error .outOfRange
  | .real number => .ok (number, none)
  | .complex real imaginary => .ok (real, some imaginary)

def partsOfValue (heap : Heap) (value : Value) :
    Except Refusal (Binary64 × Option Binary64) :=
  match numberOf? heap value with
  | some number => partsOf number
  | none => .error .wrongType

/-- Joins a real and an imaginary part that may be complex themselves. -/
def join
    (real : Binary64 × Option Binary64)
    (imaginary? : Option (Binary64 × Option Binary64)) : Parts :=
  match imaginary? with
  | none => (real.1, real.2.getD (Binary64.zero false))
  | some imaginary =>
      (match imaginary.2 with
        | some correction => Binary64.sub real.1 correction
        | none => real.1,
        match real.2 with
        | some correction => Binary64.add imaginary.1 correction
        | none => imaginary.1)

def ofCall (call : Call) (heap : Heap) : Except Refusal Parts := do
  let values ← call.bind ["real", "imag"] 0
  let real := (values[0]?.bind id).getD (.int 0)
  let imaginary? := values[1]?.bind id
  match real.text?, imaginary? with
  | some text, none =>
      match parse? text with
      | some parts => return parts
      | none => .error .badValue
  | some _, some _ => .error .wrongType
  | none, _ =>
      let real ← partsOfValue heap real
      let imaginary? ← imaginary?.mapM (partsOfValue heap)
      return join real imaginary?

end PickleGraph.Complex
