import PickleGraph.Dtype.OfRecord

/-!
# Arrays and elements rebuilt from records

A record of an array holds its shape, its element type, its order and its
contents: a buffer, or the values of an array of objects. A record of an element
holds its type and its bytes.
-/

namespace PickleGraph

namespace Heap

def length (heap : Heap) (value : Value) : Except Refusal Nat :=
  match value.plain with
  | .str text => .ok text.length
  | .bytes content => .ok content.length
  | .tuple items => .ok items.length
  | .frozenset members => .ok members.length
  | .object address =>
      match heap.get address with
      | .list items => .ok items.size
      | .dict _ entries => .ok entries.length
      | .set members => .ok members.length
      | .bytearray content => .ok content.length
      | .view view => .ok view.length
      | .array array =>
          match array.shape with
          | [] => .error .wrongType
          | extent :: _ => .ok extent
      | .record _ | .typeRef _ | .plain => .error .wrongType
  | _ => .error .wrongType

/-! ## Arrays of objects -/

/-- An element of a type as a value of its own. -/
def elementValue (heap : Heap) (type : Dtype) (data : Bytes) :
    Value × Heap :=
  match type.plainValue? data with
  | some (.float number _) => heap.float number
  | some (.complex real imaginary _) => heap.complex real imaginary
  | some value => (value, heap)
  | none => (.scalar type data, heap)

def elementValues (heap : Heap) (array : NdArray) : List Value × Heap :=
  match array.content with
  | .items values => (values, heap)
  | .raw data =>
      (pieces array.type.itemSize array.size data).foldl
        (fun (values, heap) element =>
          let (value, heap) := heap.elementValue array.type element
          (values ++ [value], heap))
        ([], heap)

/-- A value that lends its bytes, as an array of them. -/
def lentArray? (heap : Heap) (value : Value) : Option NdArray :=
  let octets : Dtype := .element .unsigned 1 false none
  match value with
  | .object address =>
      match heap.get address with
      | .bytearray content =>
          some ⟨octets, [content.length], .raw content, true⟩
      | .view view =>
          let type :=
            match heap.get view.source with
            | .array array => array.type
            | _ => octets
          some ⟨type, view.shape, .raw view.content, false⟩
      | .array array => some array
      | _ => none
  | _ => none

/-- The values that fill a line of `count` places: the items of a sequence or
of an array, or the same value everywhere. This is what assignment to a
one-dimensional array of objects does in numpy 2.4, where an array must have one
dimension or a single element, and where texts, mappings and sets are no
sequences. -/
def spread (heap : Heap) (count : Nat) (value : Value) :
    Except Refusal (List Value × Heap) :=
  match heap.lentArray? value with
  | some array =>
      if array.shape.length = 1 ∨ array.shape.all (· = 1) then
        .ok (heap.elementValues array)
      else
        .error .badValue
  | none =>
      match value with
      | .tuple items => .ok (items, heap)
      | .object address =>
          match heap.get address with
          | .list items => .ok (items.toList, heap)
          | _ => .ok (List.replicate count value, heap)
      | _ => .ok (List.replicate count value, heap)

/-! ## Shapes -/

/-- An extent as a word of 64 bits: fractions are cut. -/
def extentWord (value : Value) : Except Refusal Int :=
  match value.number? with
  | some (.int number) =>
      if number < -2 ^ 63 ∨ 2 ^ 64 ≤ number then .error .outOfRange
      else .ok number
  | some (.real number) =>
      if number.isFinite then
        let (numerator, denominator) := number.ratio
        let whole : Int := (numerator / denominator : Nat)
        .ok (if number.negative then -whole else whole)
      else
        .ok (-2 ^ 63)
  | some (.complex ..) => .error .wrongType
  | none =>
      match value.plain with
      | .str _ | .bytes _ => .error .badValue
      | _ => .error .wrongType

/-- The number of elements of a shape in words of 64 bits. -/
def elementCount (extents : List Value) : Except Refusal Int := do
  let words ← extents.mapM extentWord
  return Int.bmod (words.foldl (· * ·) 1) (2 ^ 64)

/-! ## Records -/

/-- The bytes of a buffer; texts stand for the octets of the same numbers. -/
def bufferOctets (value : Value) : Except Refusal Value :=
  match value.plain with
  | .str text =>
      match text.mapM fun point =>
          if point.val < 256 then some (UInt8.ofNat point.val)
          else none with
      | some content => .ok (.bytes content)
      | none => .error .unencodable
  | _ => .ok value

/-- The bytes that a value lends as an array of elements. -/
def lend (heap : Heap) (type : Dtype) (value : Value) :
    Except Refusal NdArray :=
  match heap.buffer? value with
  | some (data, writable) => NdArray.ofBuffer type data none writable
  | none => .error .wrongType

/-- The array that a record rebuilds. -/
def arrayOfRecord (heap : Heap) (record : Record) :
    Except Failure (NdArray × Heap) := do
  let (extents, heap) ←
    heap.iterate ((record.field? "shape").getD (.tuple []))
  let type ← heap.toDtype (record.field "dtype")
  let firstFastest ← heap.isTrue (record.field "fortran_order")
  let data := record.field "data"
  if type.hasObject then
    let count ← heap.length data
    let (values, heap) ← heap.spread count data
    let line : NdArray := ⟨.object, [count], .items values, true⟩
    return (← line.reshape (← NdArray.extentsOf extents) firstFastest, heap)
  else
    let data ← bufferOctets data
    let expected := (← elementCount extents) * type.itemSize
    let length ← heap.length data
    if length ≠ expected then
      Failure.raise (.bufferSize length expected)
    else
      let line ← heap.lend type data
      return (← line.reshape (← NdArray.extentsOf extents) firstFastest,
        heap)

/-- The array element that a record rebuilds: the first one of its bytes. -/
def elementOfRecord (heap : Heap) (record : Record) :
    Except Failure (Value × Heap) := do
  let type ← heap.toDtype (record.field "dtype")
  let data := record.field "data"
  if type.hasObject then
    return (data, heap)
  else
    let line ← heap.lend type (← bufferOctets data)
    let (items, heap) ← line.iterate heap
    match items with
    | first :: _ => return (first, heap)
    | [] => .error (.refused .missingPosition)

/-- The array or the element type that a record rebuilds. -/
def rebuild (heap : Heap) (record : Record) :
    Except Failure (Value × Heap) :=
  match record.kind with
  | .dtype => do
      let type ← convertDtype.ofRecord heap heap.toDtype record
      return (.dtype type, heap)
  | .ndarray => do
      let (array, heap) ← heap.arrayOfRecord record
      return heap.alloc (.array array)
  | .plain | .scalar => .error (.refused .missingAttribute)

/-- The element that a record rebuilds, if it stands for one. -/
def rebuildElement (heap : Heap) (record : Record) :
    Except Failure (Value × Heap) :=
  match record.kind with
  | .scalar => heap.elementOfRecord record
  | _ => .error (.refused .missingAttribute)

end Heap

end PickleGraph
