import PickleGraph.Dtype.OfValue

/-!
# Arrays

The elements of an array are kept in row-major order. An array is made of the
bytes of a buffer and brought into a shape, where elements are taken and placed
either with the last index or with the first index moving fastest.
-/

namespace PickleGraph

/-- The first `count` pieces of a list, `size` items each. -/
def pieces {α : Type} (size : Nat) : (count : Nat) → List α → List (List α)
  | 0, _ => []
  | count + 1, items =>
      items.take size :: pieces size count (items.drop size)

/-- The items at every `count`-th place from the first one on. -/
def everyNth {α : Type} (count : Nat) (items : List α) : List α :=
  (pieces count ((items.length + count - 1) / max count 1) items).filterMap
    List.head?

/-- Brings items that are listed with the first index moving fastest into
row-major order. -/
def toRowMajor {α : Type} : (shape : List Nat) → List α → List α
  | [], items => items
  | extent :: shape, items =>
      if items.isEmpty then
        []
      else
        (List.range extent).flatMap fun index =>
          toRowMajor shape (everyNth extent (items.drop index))

/-- Brings items in row-major order into the order in which the first index
moves fastest. -/
def ofRowMajor {α : Type} (shape : List Nat) (items : List α) : List α :=
  toRowMajor shape.reverse items

namespace Dtype

/-- The extents that elements of a type add to an array, and the type of the
elements that remain. -/
def expand : Dtype → List Nat × Dtype
  | subarray base shape =>
      let (inner, remaining) := base.expand
      (shape ++ inner, remaining)
  | type => ([], type)

/-- The same type with every element in the given byte order. -/
def withOrder (bigEndian : Bool) : Dtype → Dtype
  | element kind size _ unit => ofElement kind size bigEndian unit
  | subarray base shape => subarray (base.withOrder bigEndian) shape
  | struct fields size => struct (fieldsWithOrder fields) size
where
  fieldsWithOrder :
      List (Text × Nat × Dtype) → List (Text × Nat × Dtype)
    | [] => []
    | (name, offset, type) :: rest =>
        (name, offset, type.withOrder bigEndian) :: fieldsWithOrder rest

/-- The width of what is reversed by a change of byte order. -/
def swapWidth (kind : ElementKind) (size : Nat) : Nat :=
  match kind with
  | .complex => size / 2
  | .text => 4
  | _ => size

def swapBytes (width : Nat) (data : Bytes) : Bytes :=
  ((pieces width (data.length / max width 1) data).map
    List.reverse).flatten

/-- An element taken out of an array: in the byte order of the machine and
without padding. -/
def scalarOf (type : Dtype) (data : Bytes) : Value :=
  match type with
  | element kind size bigEndian unit =>
      let ordered :=
        if bigEndian then swapBytes (swapWidth kind size) data else data
      match kind with
      | .boolean =>
          .scalar type [if data.any (· != 0) then 1 else 0]
      | .bytes =>
          let content := dropPadding data
          .scalar (element kind content.length false unit) content
      | .text =>
          let width := (dropPadding ordered).length
          let content := ordered.take ((width + 3) / 4 * 4)
          .scalar (element kind content.length false unit) content
      | _ => .scalar (element kind size false unit) ordered
  | type => .scalar type data

end Dtype

namespace NdArray

def size (array : NdArray) : Nat :=
  array.shape.foldl (· * ·) 1

/-! ## Buffers -/

/-- The greatest size of an array in bytes, and the greatest extent. -/
def maxSize : Int := 2 ^ 63 - 1

/-- Whether there are few enough extents, and those that are not zero, times
the size of an element, stay in range. -/
def fits (type : Dtype) (shape : List Nat) : Bool :=
  let product : Nat :=
    (shape.filter (· ≠ 0)).foldl (· * ·) type.itemSize
  shape.length ≤ Dtype.maxDimensions && (product : Int) ≤ maxSize

/-- The elements of a buffer; `count` of them, or all. As `frombuffer` of numpy
2.4 has it, the type must not hold references and must have a size, there must be
as many elements as asked for, and without a count nothing may be left over. The
extents of a subarray are added to the shape. -/
def ofBuffer
    (type : Dtype) (data : Bytes) (count : Option Nat) (writable : Bool) :
    Except Refusal NdArray :=
  if count.any fun (count : Nat) => maxSize < (count : Int) then
    .error .outOfRange
  else if type.hasObject || type.isUnsized then
    .error .badValue
  else
    let size := type.itemSize
    let found : Except Refusal Nat :=
      match count with
      | some count =>
          if data.length < count * size then .error .badValue
          else .ok count
      | none =>
          if size = 0 ∨ data.length % size ≠ 0 then .error .badValue
          else .ok (data.length / size)
    found.bind fun count =>
      let (inner, element) := type.expand
      if fits element (count :: inner) then
        .ok ⟨element, count :: inner, .raw (data.take (count * size)),
          writable⟩
      else
        .error .badValue

/-! ## Shapes -/

/-- The extents given by values, which must be numbers in range. -/
def extentsOf (values : List Value) : Except Refusal (List Int) :=
  if Dtype.maxDimensions < values.length then
    .error .badValue
  else
    values.mapM fun value =>
      match value.exactInt? with
      | none => .error .wrongType
      | some extent =>
          if extent < -2 ^ 63 ∨ maxSize < extent then .error .badValue
          else .ok extent

/-- The product of the extents that are known, multiplied in order, if it
stays in range. -/
def knownProduct? (extents : List Int) : Option Int :=
  (extents.filter (0 ≤ ·)).foldl
    (fun product extent =>
      product.bind fun product =>
        if product * extent ≤ maxSize then some (product * extent)
        else none)
    (some 1)

/-- Replaces the one open extent, if any, so that `size` elements fill the
shape. -/
def completeShape? (size : Nat) (extents : List Int) :
    Option (List Nat) := do
  let known ← knownProduct? extents
  match (extents.filter (· < 0)).length with
  | 0 =>
      guard (known = size)
      return extents.map Int.toNat
  | 1 =>
      guard (known ≠ 0 ∧ (size : Int) % known = 0)
      let missing := (size / known : Int).toNat
      return extents.map fun extent =>
        if extent < 0 then missing else extent.toNat
  | _ => none

/-- Reorders the elements of an array for a shape that is filled with the
first index moving fastest. -/
def rearrange (array : NdArray) (shape : List Nat) : ArrayContent :=
  match array.content with
  | .raw data =>
      let elements := pieces array.type.itemSize
        (if array.type.itemSize = 0 then 0 else array.size) data
      .raw (toRowMajor shape (ofRowMajor array.shape elements)).flatten
  | .items values =>
      .items (toRowMajor shape (ofRowMajor array.shape values))

/-- The same elements in another shape. -/
def reshape (array : NdArray) (extents : List Int) (firstFastest : Bool) :
    Except Refusal NdArray :=
  match completeShape? array.size extents with
  | none => .error .badValue
  | some shape =>
      if !fits array.type shape then
        .error .badValue
      else if firstFastest then
        .ok { array with shape, content := array.rearrange shape }
      else
        .ok { array with shape }

/-! ## Bytes -/

/-- The bytes of an array in row-major order, unless it holds values. -/
def bytes? (array : NdArray) : Option Bytes :=
  match array.content with
  | .raw data => some data
  | .items _ => none

end NdArray

namespace Heap

/-- The bytes that a value lends, and whether they can be written. -/
def buffer? (heap : Heap) (value : Value) : Option (Bytes × Bool) :=
  match value.plain with
  | .bytes content => some (content, false)
  | .object address =>
      match heap.get address with
      | .bytearray content => some (content, true)
      | .view view => some (view.content, false)
      | .array array =>
          array.bytes?.map fun data => (data, array.writable)
      | _ => none
  | _ => none

end Heap

end PickleGraph
