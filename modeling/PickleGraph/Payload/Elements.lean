import PickleGraph.NdArray.OfRecord
import PickleGraph.Payload.Header

/-!
# Array payloads

The elements of an array are kept next to the opcodes that name it: behind a
placeholder in the same stream, with or without a header, as a nested pickle of
an array of objects, or in a file next to the stream.
-/

namespace PickleGraph.Payload

open Decoding

def allocArray (array : NdArray) : Decoding Value :=
  alloc (.array array)

/-! ## Raw elements -/

def readElements (header : Header) : Decoding NdArray := do
  if header.type.hasObject then
    fail .rawObjects (← tell?)
  else
    let count := header.shape.foldl (· * ·) 1
    let data ← readExact (count * header.type.itemSize)
    ask fun _ => do
      let line ← NdArray.ofBuffer header.type data (some count) false
      line.reshape (header.shape.map Int.ofNat) header.firstFastest

def readHeaded (names : CharacterNames) : Decoding NdArray := do
  readElements (← readHeader names)

/-- Skips the bytes that align the elements; the first one counts the others. -/
def skipPadding : Decoding Unit := do
  let length ← readExact 1
  match length with
  | first :: _ =>
      if first ≠ 0 then
        let _ ← readExact first.toNat
  | [] => return

/-! ## Nested pickles -/

/-- The array that a nested decode gives. -/
def readNested (nested : Decoding Value) : Decoding Value := do
  let offset ← tell?
  let value ← mapFailure (corrupt offset) do
    let value ← nested
    match (← heap).record? value with
    | some (_, record) =>
        if record.kind = .ndarray then
          allocArray (← build (·.arrayOfRecord record))
        else
          return value
    | none => return value
  if ((← heap).array? value).isSome then
    return value
  else
    fail (.nestedResult ((← heap).typeName value)) (← tell?)
where
  corrupt (offset : Option Nat) : Failure → Failure
    | .defect cause place => .defect (.nestedFailure cause place) offset
    | .refused refusal =>
        match refusal with
        | .wrongType | .badValue | .undecodable | .unencodable =>
            .defect .nestedRefusal offset
        | refusal => .refused refusal
    | failure => failure

/-! ## Placeholders -/

/-- Whether a value is equal to a text. An array is compared by its only element,
and with any other number of elements it cannot be compared. The depth bounds
arrays inside each other. -/
def isText (heap : Heap) (text : Text) :
    (depth : Nat) → Value → Except Refusal Bool
  | 0, _ => .ok false
  | depth + 1, value =>
      match heap.array? value with
      | none => .ok ((Value.str text).matchesKey value)
      | some array =>
          if array.size ≠ 1 then
            .error .badValue
          else
            match array.content with
            | .raw data =>
                .ok ((Value.str text).matchesKey (.scalar array.type data))
            | .items values =>
                match values with
                | item :: _ => isText heap text depth item
                | [] => .ok false

/-- Whether a value names the order in which the first index moves fastest. -/
def orderFlag (value : Value) : Decoding Bool := do
  let names (name : String) : Decoding Bool :=
    ask fun heap =>
      isText heap (Text.ofString name) (heap.objects.size + 1) value
  if ← names "F" then
    return true
  else if ← names "C" then
    return false
  else
    fail (.badOrder (← ask (·.quote value))) (← tell?)

/-- Reads the array that a placeholder in the stream stands for. -/
def readInline
    (names : CharacterNames) (record : Record) (nested : Decoding Value) :
    Decoding Value := do
  match record.field? "dtype", record.field? "shape" with
  | some type, some shape => do
      let type ← query (·.payloadDtype type)
      let shape ← checkShape shape (← tell?)
      let order := (record.field? "order").getD (.str (Text.ofString "C"))
      let firstFastest ← orderFlag order
      if type.hasObject then
        readNested nested
      else
        match record.field "numpy_array_alignment_bytes" with
        | .none => pure ()
        | _ => skipPadding
        allocArray (← readElements ⟨type, shape, firstFastest⟩)
  | _, _ => allocArray (← readHeaded names)

/-- Opens a file next to the stream by its name. -/
abbrev Siblings := Text → Except Failure Reader

/-- Reads the array in the file that a placeholder names. -/
def readSibling
    (names : CharacterNames) (record : Record) (siblings? : Option Siblings) :
    Decoding Value := do
  match (record.field "filename").text? with
  | none => reject (.missingFileName record.name)
  | some fileName =>
      match siblings? with
      | none => reject (.missingStorage fileName)
      | some siblings =>
          match siblings fileName with
          | .ok reader => allocArray (← onReader reader (readHeaded names))
          | .error failure => throw failure

/-! ## Buffers -/

/-- The order in which elements are placed, by its name. -/
def placementOrder : Value → Except Refusal Bool
  | .none => .ok false
  | value =>
      let ofText : Text → Except Refusal Bool
        | [point] =>
            if point.isChar 'F' || point.isChar 'f' then .ok true
            else if point.isChar 'C' || point.isChar 'c' then .ok false
            else if point.isChar 'A' || point.isChar 'a' then .ok false
            else .error .badValue
        | _ => .error .badValue
      match value.plain with
      | .str text => ofText text
      | .bytes content => ofText (Text.ofLatin1 content)
      | _ => .error .wrongType

/-- An array of the elements in a buffer, brought into a shape. -/
def ofLentBuffer
    (buffer type shape order : Value) (heap : Heap) :
    Except Failure (NdArray × Heap) := do
  let type ← heap.payloadDtype type
  let buffer ← bufferOctets buffer
  let rebuilt : Except Refusal (NdArray × Heap) := do
    let line ← heap.lend type buffer
    let (extents, heap) ← heap.iterate shape
    let firstFastest ← placementOrder order
    let array ← line.reshape (← NdArray.extentsOf extents) firstFastest
    return (array, heap)
  match rebuilt with
  | .ok result => return result
  | .error .wrongType | .error .badValue => do
      Failure.raise (.rebuildRefused (← heap.quote shape))
  | .error refusal => .error (.refused refusal)
where
  bufferOctets (buffer : Value) : Except Failure Value :=
    liftM (Heap.bufferOctets buffer)

end PickleGraph.Payload
