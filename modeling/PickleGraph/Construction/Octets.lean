import PickleGraph.Construction.Parameters
import PickleGraph.NdArray.OfRecord

/-!
# Byte strings

A byte string is made of nothing, of a text and a character set, of the bytes
that a value lends, or of numbers below 256. A number alone would be a size,
which no stream needs.
-/

namespace PickleGraph.Octets

def strictRecovery : Text := Text.ofString "strict"

def ofText (text : Text) (charset : Value) (recovery? : Option Value) :
    Except Refusal Bytes := do
  let some charset := charset.text?
    | .error .wrongType
  let recovery ←
    match recovery? with
    | none => pure strictRecovery
    | some value =>
        match value.text? with
        | some recovery => pure recovery
        | none => .error .wrongType
  (Charset.encodeNamed charset recovery text).mapError Refusal.ofCharsetFault

def ofNumber (value : Value) : Except Refusal UInt8 :=
  match value.position? with
  | none => .error .wrongType
  | some number =>
      if 0 ≤ number ∧ number < 256 then .ok (UInt8.ofNat number.toNat)
      else .error .badValue

/-- The size that an integer element of an array stands for. -/
def sizeOfElement? (type : Dtype) (data : Bytes) : Option Int :=
  match type with
  | .element .signed .. | .element .unsigned .. =>
      (Value.scalar type data).position?
  | _ => none

/-- The size that an element, or an array without dimensions, stands for. -/
def sizeOfValue? (value : Value) (heap : Heap) : Option Int :=
  match value, heap.array? value with
  | .scalar type data, _ => sizeOfElement? type data
  | _, some ⟨type, [], .raw data, _⟩ => sizeOfElement? type data
  | _, _ => none

def ofValue (value : Value) (heap : Heap) : Except Refusal Bytes :=
  match sizeOfValue? value heap with
  | some size =>
      if size < 0 then .error .badValue
      else .ok (List.replicate size.toNat 0)
  | none =>
      match heap.buffer? value with
      | some (content, _) => .ok content
      | none => do
          let (items, _) ←
            heap.iterateChecked (fun item => discard (ofNumber item)) value
          items.mapM ofNumber

def isSize : Value → Bool
  | .bool _ | .int _ => true
  | _ => false

/-- The byte string that a call makes, where `typeName` names its type. -/
def ofCall (typeName : String) (call : Call) (heap : Heap) :
    Except Failure Bytes := do
  let args ← call.positional
  if (args.head?.map isSize).getD false then
    Failure.raise (.sizeForBytes (Text.ofString typeName))
  else
    match args with
    | [] => return []
    | [value] =>
        match value.text? with
        | some _ => .error (.refused .wrongType)
        | none => ofValue value heap
    | [value, charset] =>
        match value.text? with
        | some text => ofText text charset none
        | none => .error (.refused .wrongType)
    | [value, charset, recovery] =>
        match value.text? with
        | some text => ofText text charset (some recovery)
        | none => .error (.refused .wrongType)
    | _ => .error (.refused .wrongType)

end PickleGraph.Octets
