import PickleGraph.Value.Access
import PickleGraph.Value.Description
import PickleGraph.Value.Truth

/-!
# Types rebuilt from records

A record of a type holds the code that it was made from and a state: the byte
order, the base and shape of a subarray, the fields of a structure, the length
of elements of any length, and the unit of times.
-/

namespace PickleGraph

namespace Dtype

/-- The kind of the elements of a type; compound types count as untyped. -/
def kind : Dtype → ElementKind
  | element kind _ _ _ => kind
  | _ => .void

def isPositive (size : Value) : Except Refusal Bool :=
  match size.plain with
  | .none => .ok false
  | .bool flag => .ok flag
  | .int number => .ok (0 < number)
  | .float number _ =>
      .ok (!number.negative && !number.isZero && !number.isNaN)
  | _ => .error .wrongType

/-- Elements of a kind of any length, of a size in bytes. -/
def ofKindAndSize (kind : ElementKind) (size : Value) :
    Except Refusal Dtype :=
  let ofLength (length : Int) : Except Refusal Dtype :=
    ofText (Text.ofString kind.letter ++ Text.ofInt length)
  match size.plain, kind with
  | .int number, .text => ofLength (number / 4)
  | .int number, _ => ofLength number
  | .bool _, .text => ofLength 0
  | _, _ => .error .wrongType

end Dtype

namespace Heap

/-- The unit of the times of a record, which its metadata hold; an empty text
or another false value where it is not fixed. -/
def timeUnit (heap : Heap) (record : Record) : Except Failure Value :=
  let metadata := record.field "metadata"
  match metadata with
  | .none => .ok (.str [])
  | _ =>
      let found := do
        heap.firstTwo (← heap.item metadata (.int 1))
      match found with
      | .error .missingKey => .error (.refused .missingKey)
      | .error _ => do
          Failure.raise (.badTimeUnit (← heap.quote metadata))
      | .ok (unit, count) => do
          let unit ←
            match unit.plain with
            | .bytes content =>
                if content.all (· < 0x80) then
                  pure (Value.str (Text.ofLatin1 content))
                else
                  .error (.refused .undecodable)
            | _ => pure unit
          if unit.matchesKey (.str (Text.ofString Dtype.genericUnit)) then
            return .str []
          else if count.matchesKey (.int 1) then
            return unit
          else
            return .str ((← heap.wording count) ++ (← heap.wording unit))

def timeType (heap : Heap) (kind : ElementKind) (record : Record) :
    Except Failure Dtype := do
  let unit ← heap.timeUnit record
  let suffix : Text ←
    if ← heap.isTrue unit then
      pure (List.flatten ["[", ← heap.wording unit, "]"])
    else
      pure []
  Dtype.ofText (List.flatten [kind.letter, "8", suffix])

/-- A type of single elements: its length, its unit and its byte order. -/
def elementType (heap : Heap) (code : Text) (record : Record) :
    Except Failure Dtype := do
  let base ← Dtype.ofText code
  let size := (record.field? "elsize").getD (.int (-1))
  let base ←
    if base.kind.isFlexible then
      if ← Dtype.isPositive size then
        Dtype.ofKindAndSize base.kind size
      else
        pure base
    else
      pure base
  let base ←
    if base.kind = .timedelta ∨ base.kind = .datetime then
      heap.timeType base.kind record
    else
      pure base
  match (record.field "byteorder").text? with
  | some order =>
      if order = Text.ofString "<" then
        return base.withOrder false
      else if order = Text.ofString ">" then
        return base.withOrder true
      else
        return base
  | none => return base

/-- The field of a structure: its type and its offset under its name. -/
def fieldOfRecord
    (heap : Heap) (convert : Value → Except Failure Dtype)
    (fields name : Value) : Except Failure (Value × Dtype × Value) := do
  let (type, offset) ← heap.firstTwo (← heap.item fields name)
  let type ← convert type
  return (name, type, offset)

def structType
    (heap : Heap) (convert : Value → Except Failure Dtype)
    (record : Record) (names : Value) : Except Failure Dtype := do
  let fields := record.field "fields"
  let fields ←
    if ← heap.isTrue fields then pure fields
    else pure (Value.tuple [])
  let isAbsent :=
    match fields with
    | .tuple [] => true
    | _ => false
  let (names, _) ← heap.iterate names
  let found ← names.mapM fun name =>
    if isAbsent then
      .error (.refused .missingKey)
    else
      heap.fieldOfRecord convert fields name
  let size := (record.field? "elsize").getD (.int (-1))
  let size ←
    if ← Dtype.isPositive size then
      pure (some (← requireInt size))
    else
      pure none
  let specs ← found.mapM fun (name, type, offset) => do
    let offset ← requireInt offset
    match name.text? with
    | some name => return Dtype.FieldSpec.mk name none type (some offset)
    | none => .error (.refused .badValue)
  Dtype.ofFields false specs size

/-- The type that a record rebuilds; other values are taken as descriptions of
a type. The depth bounds records inside each other. -/
def convertDtype (heap : Heap) :
    (depth : Nat) → Value → Except Failure Dtype
  | 0, _ => .error (.refused .unimplemented)
  | depth + 1, value =>
      match heap.record? value with
      | some (_, record) =>
          if record.kind = .dtype then
            ofRecord (heap.convertDtype depth) record
          else
            .error (.refused .wrongType)
      | none => liftM (heap.dtypeOf value)
where
  ofRecord (convert : Value → Except Failure Dtype) (record : Record) :
      Except Failure Dtype := do
    let object := record.field "obj"
    let code ←
      match object.plain with
      | .str text => pure text
      | .bytes content =>
          if content.all (· < 0x80) then pure (Text.ofLatin1 content)
          else .error (.refused .undecodable)
      | _ => Failure.raise (.missingTypeCode (← heap.quote object))
    match record.field "subdescr" with
    | .tuple [base, shape] => do
        let base ← convert base
        let (extents, _) ← heap.iterate shape
        let value := Value.tuple extents
        heap.pairType base value (.error .wrongType)
    | .none => do
        let names := record.field "names"
        if ← heap.isTrue names then
          heap.structType convert record names
        else
          heap.elementType code record
    | other => Failure.raise (.badSubarray (← heap.quote other))

/-- The type that a value stands for: a record through its state, and any other
value as `dtype` of numpy 2.4 reads it. Only in a circle are there more records
inside each other than there are objects. -/
def toDtype (heap : Heap) (value : Value) : Except Failure Dtype :=
  heap.convertDtype (heap.objects.size + 1) value

def payloadDtype (heap : Heap) (value : Value) : Except Failure Dtype :=
  match heap.toDtype value with
  | .ok type => .ok type
  | .error (.defect cause offset) => do
      Failure.raise
        (.unconvertibleDtype (← heap.quote value) cause offset)
  | .error (.refused refusal) =>
      match refusal with
      | .wrongType | .badValue | .undecodable | .unencodable
      | .missingKey => do
          Failure.raise (.unsupportedDtype (← heap.quote value))
      | _ => .error (.refused refusal)
  | .error (.source fault) => .error (.source fault)

end Heap

end PickleGraph
