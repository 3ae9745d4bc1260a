import PickleGraph.Failure
import PickleGraph.NdArray

/-!
# Items of values

A value yields items in order: members of containers, keys of mappings,
characters of texts, numbers of byte strings and views, and the rows or elements
of arrays. Other values are refused. One item is reached by position in sequences
and by key in mappings and records.
-/

namespace PickleGraph

def byteValues (content : Bytes) : List Value :=
  content.map fun byte => .int byte.toNat

namespace NdArray

/-- The contents of the rows of an array along its first axis. -/
def rowContents (count : Nat) (rowSize : Nat) :
    ArrayContent → Dtype → List ArrayContent
  | .raw data, type =>
      (pieces (rowSize * type.itemSize) count data).map .raw
  | .items values, _ => (pieces rowSize count values).map .items

/-- The elements of an array of one dimension, or the rows of one of more. -/
def iterate (array : NdArray) (heap : Heap) :
    Except Refusal (List Value × Heap) :=
  match array.shape with
  | [] => .error .wrongType
  | [count] =>
      match array.content with
      | .raw data =>
          .ok ((pieces array.type.itemSize count data).map
            array.type.scalarOf, heap)
      | .items values => .ok (values, heap)
  | count :: shape =>
      let contents := rowContents count (shape.foldl (· * ·) 1)
        array.content array.type
      .ok (contents.foldl
        (fun (rows, heap) content =>
          let (row, heap) := heap.alloc (.array { array with shape, content })
          (rows ++ [row], heap))
        ([], heap))

end NdArray

namespace Heap

def floats (heap : Heap) (numbers : List Binary64) : List Value × Heap :=
  numbers.foldl
    (fun (values, heap) number =>
      let (value, heap) := heap.float number
      (values ++ [value], heap))
    ([], heap)

/-- The items of a view of one dimension whose elements are plain numbers in
the order of the machine. -/
def iterateView (heap : Heap) (view : MemoryView) :
    Except Refusal (List Value × Heap) :=
  match view.shape with
  | [] => .error .wrongType
  | [count] =>
      match heap.get view.source with
      | .array array =>
          let elements := pieces array.type.itemSize count view.content
          match array.type with
          | .element .boolean _ _ _ | .element .signed _ false _
          | .element .unsigned _ false _ =>
              .ok (elements.filterMap array.type.plainValue?, heap)
          | .element .float size false _ =>
              if size = 4 ∨ size = 8 then
                .ok (heap.floats (elements.filterMap fun element =>
                  Binary64.ofBytes? element false))
              else
                .error .unimplemented
          | _ => .error .unimplemented
      | _ => .ok (byteValues view.content, heap)
  | _ => .error .unimplemented

def iterateObject (heap : Heap) (address : Address) :
    Except Refusal (List Value × Heap) :=
  match heap.get address with
  | .list items => .ok (items.toList, heap)
  | .dict _ entries => .ok (entries.map (·.1), heap)
  | .set members => .ok (members, heap)
  | .bytearray content => .ok (byteValues content, heap)
  | .view view => heap.iterateView view
  | .record _ => .error .missingKey
  | .array array => array.iterate heap
  | .typeRef _ | .plain => .error .wrongType

/-- The items of a value. The members of a set come in the order in which they
were added, where an interpreter may choose any order. A record answers to keys
and not to positions. -/
def iterate (heap : Heap) (value : Value) :
    Except Refusal (List Value × Heap) :=
  match value.plain with
  | .str text => .ok (text.map fun point => .str [point], heap)
  | .bytes content => .ok (byteValues content, heap)
  | .tuple items => .ok (items, heap)
  | .frozenset members => .ok (members, heap)
  | .object address => heap.iterateObject address
  | _ => .error .wrongType

end Heap

/-! ## Access -/

namespace Entries

/-- The value bound to a key. A key that can change is refused. -/
def lookup
    (heap : Heap) (key : Value) (entries : List (Value × Value)) :
    Except Refusal Value := do
  heap.checkHashable key
  match find? key entries with
  | some value => return value
  | none => .error .missingKey

end Entries

namespace Record

def field? (record : Record) (name : String) : Option Value :=
  Entries.findText? name record.fields

def field (record : Record) (name : String) : Value :=
  (record.field? name).getD .none

/-- The fields under the keys `0`, `1` and so on, up to the first number that
is no key. -/
def numbered (record : Record) : List Value :=
  let found := (List.range record.fields.length).map fun number : Nat =>
    Entries.find? (.int number) record.fields
  (found.takeWhile Option.isSome).filterMap id

end Record

namespace Value

def position? (value : Value) : Option Int :=
  match value.plain with
  | .bool flag => some (if flag then 1 else 0)
  | .int number => some number
  | _ => Option.none

end Value

namespace Heap

/-- The item at a position, counted from the end where it is negative. -/
def atPosition {α : Type} (items : List α) (position : Value) :
    Except Refusal α :=
  match position.position? with
  | none => .error .wrongType
  | some number =>
      let index :=
        if number < 0 then number + items.length else number
      if index < 0 then
        .error .missingPosition
      else
        match items[index.toNat]? with
        | some item => .ok item
        | none => .error .missingPosition

/-- The items of a value in order, each of which must pass a check as soon as
it is reached. A record is asked for its numbered fields until one is
missing. -/
def iterateChecked
    (heap : Heap) (check : Value → Except Refusal Unit) (value : Value) :
    Except Refusal (List Value × Heap) := do
  match heap.record? value with
  | some (_, record) => do
      record.numbered.forM check
      .error .missingKey
  | none => do
      let (items, heap) ← heap.iterate value
      items.forM check
      return (items, heap)

def sequence (heap : Heap) (value : Value) :
    Except Refusal (List Value × Heap) :=
  match value.plain with
  | .object address =>
      match heap.get address with
      | .list _ | .bytearray _ | .array _ => heap.iterate value
      | _ => .error .wrongType
  | .frozenset _ => .error .wrongType
  | _ => heap.iterate value

/-- The item of a value under a key or at a position. -/
def item (heap : Heap) (value key : Value) : Except Refusal Value :=
  let entries? : Option (List (Value × Value)) :=
    match value with
    | .object address =>
        match heap.get address with
        | .dict _ entries => some entries
        | .record record => some record.fields
        | _ => none
    | _ => none
  match entries? with
  | some entries => Entries.lookup heap key entries
  | none => do
      let (items, _) ← heap.sequence value
      atPosition items key

/-- The first two items of a sequence, which must have both. -/
def firstTwo (heap : Heap) (value : Value) :
    Except Refusal (Value × Value) := do
  let (items, _) ← heap.sequence value
  match items with
  | first :: second :: _ => return (first, second)
  | _ => .error .badValue

end Heap

end PickleGraph
