import PickleGraph.Catalog
import PickleGraph.Construction.Instance
import PickleGraph.Construction.State
import PickleGraph.Proofs.Array.Layout
import PickleGraph.Proofs.Value.Key

/-!
# Arrays rebuilt from values

An array can also be rebuilt from its bytes without a reader: from a buffer that
is lent together with a type, a shape and an order, and from a record whose
state holds these.
-/

namespace PickleGraph

open Actions

/-- How a record of an array is filled. -/
def Catalog.arrayStrategy : Strategy :=
  .extension "numpy.ndarray" .ndarray
    (["subtype", "initial_shape", "initial_dtype"].map Text.ofString)
    (arrayState.map Text.ofString)

variable {type : Dtype} {shape : List Nat} {firstFastest : Bool}
variable {data : Bytes} {heap : Heap}

/-! ## Lists of outcomes -/

theorem mapM_eq_ok {ε α β : Type} {change : α → Except ε β} {result : α → β}
    {items : List α} (made : ∀ item ∈ items, change item = .ok (result item)) :
    items.mapM change = .ok (items.map result) := by
  induction items with
  | nil => rfl
  | cons item rest inductionHypothesis =>
      have others := inductionHypothesis fun other member =>
        made other (List.mem_cons_of_mem item member)
      rw [List.mapM_cons, made item List.mem_cons_self, others]
      rfl

/-! ## Shapes as values -/

def extentValue (extent : Nat) : Value :=
  .int extent

/-- The extent that a value gives. -/
def extentOf? : Value → Option Nat
  | .int number => if 0 ≤ number then some number.toNat else none
  | _ => none

theorem iterate_of_shapeOf? {value : Value}
    (isShape : Payload.shapeOf? heap value = some shape) :
    heap.iterate value = .ok (shape.map extentValue, heap) := by
  have inverse : ∀ (item : Value) (extent : Nat),
      extentOf? item = some extent → item = extentValue extent := by
    intro item extent isExtent
    unfold extentOf? at isExtent
    split at isExtent
    · split at isExtent
      · next natural =>
          cases isExtent
          rw [extentValue, Int.toNat_of_nonneg natural]
      · cases isExtent
    · cases isExtent
  unfold Payload.shapeOf? at isShape
  dsimp only at isShape
  split at isShape
  · rw [eq_map_of_mapM inverse isShape]
    rfl
  · next address =>
      split at isShape
      · next items here =>
          have listed := eq_map_of_mapM inverse isShape
          show heap.iterateObject address = _
          unfold Heap.iterateObject
          rw [here]
          exact congrArg (fun items => Except.ok (items, heap)) listed
      · cases isShape
  · cases isShape

theorem le_spreadOf {extent : Nat} (member : extent ∈ shape) :
    extent ≤ spreadOf shape := by
  induction shape with
  | nil => cases member
  | cons first rest inductionHypothesis =>
      rw [spreadOf_cons]
      split
      · next isZero =>
          rcases List.mem_cons.mp member with rfl | later
          · rw [isZero]
            exact Nat.zero_le _
          · exact inductionHypothesis later
      · next notZero =>
          rcases List.mem_cons.mp member with rfl | later
          · exact Nat.le_mul_of_pos_right _ (spreadOf_pos rest)
          · exact Nat.le_trans (inductionHypothesis later)
              (Nat.le_mul_of_pos_left _ (Nat.pos_of_ne_zero notZero))

theorem Dtype.Admits.extent_lt (admits : type.Admits shape)
    (isRaw : type.IsRaw) {extent : Nat} (member : extent ∈ shape) :
    extent < 2 ^ 63 :=
  calc extent
    _ ≤ spreadOf shape := le_spreadOf member
    _ ≤ spreadOf shape * type.itemSize :=
        Nat.le_mul_of_pos_right _ isRaw.sized
    _ < 2 ^ 63 := admits.inRange

theorem extentsOf_extentValues (few : shape.length ≤ Dtype.maxDimensions)
    (small : ∀ extent ∈ shape, extent < 2 ^ 63) :
    NdArray.extentsOf (shape.map extentValue) =
      .ok (shape.map Int.ofNat) := by
  have notMany : ¬ Dtype.maxDimensions < (shape.map extentValue).length := by
    rw [List.length_map]
    exact Nat.not_lt.mpr few
  unfold NdArray.extentsOf
  rw [if_neg notMany, List.mapM_map]
  refine mapM_eq_ok fun extent member => ?_
  have smallExtent := small extent member
  have inRange : ¬ ((extent : Int) < -2 ^ 63 ∨
      NdArray.maxSize < (extent : Int)) := by
    unfold NdArray.maxSize
    omega
  exact if_neg inRange

theorem Dtype.Admits.extentsOf_eq (admits : type.Admits shape)
    (isRaw : type.IsRaw) :
    NdArray.extentsOf (shape.map extentValue) =
      .ok (shape.map Int.ofNat) :=
  extentsOf_extentValues admits.dimensions fun _ => admits.extent_lt isRaw

theorem foldl_mul_ofNat (shape : List Nat) :
    (shape.map Int.ofNat).foldl (· * ·) 1 = (shape.prod : Int) := by
  have cast : shape.foldl
      (fun (product : Int) extent => product * Int.ofNat extent)
      (Int.ofNat 1) = Int.ofNat (shape.foldl (· * ·) 1) :=
    List.foldl_hom Int.ofNat fun product extent =>
      (Int.natCast_mul product extent).symm
  rw [foldl_mul_eq, Nat.one_mul] at cast
  rw [List.foldl_map]
  exact cast

theorem elementCount_extentValues (isRaw : type.IsRaw)
    (admits : type.Admits shape) :
    Heap.elementCount (shape.map extentValue) =
      .ok (shape.prod : Int) := by
  have words : (shape.map extentValue).mapM Heap.extentWord =
      .ok (shape.map Int.ofNat) := by
    rw [List.mapM_map]
    refine mapM_eq_ok fun extent member => ?_
    have small := admits.extent_lt isRaw member
    have inRange : ¬ ((extent : Int) < -2 ^ 63 ∨ 2 ^ 64 ≤ (extent : Int)) := by
      omega
    exact if_neg inRange
  have small := admits.prod_lt isRaw
  have wrapped : Int.bmod (shape.prod : Int) (2 ^ 64) = shape.prod := by
    apply Int.bmod_eq_of_le <;> omega
  refine except_bind_eq_ok_iff.mpr ⟨_, words, ?_⟩
  rw [foldl_mul_ofNat, wrapped]
  rfl

/-! ## Buffers -/

theorem payloadDtype_eq_ok {value : Value}
    (isType : heap.toDtype value = .ok type) :
    heap.payloadDtype value = .ok type := by
  unfold Heap.payloadDtype
  rw [isType]

theorem lend_bytes (isRaw : type.IsRaw) (admits : type.Admits shape)
    (length : data.length = shape.prod * type.itemSize) :
    heap.lend type (.bytes data) = .ok (NdArray.line type shape.prod data) :=
  NdArray.ofBuffer_all isRaw admits length

/-- The name of an order. -/
def orderName (firstFastest : Bool) : Value :=
  .str (Text.ofString (if firstFastest then "F" else "C"))

theorem ofLentBuffer_eq {typeValue shapeValue : Value}
    (isRaw : type.IsRaw) (admits : type.Admits shape)
    (length : data.length = shape.prod * type.itemSize)
    (isType : heap.toDtype typeValue = .ok type)
    (isShape : Payload.shapeOf? heap shapeValue = some shape) :
    Payload.ofLentBuffer (.bytes data) typeValue shapeValue
        (orderName firstFastest) heap =
      .ok (NdArray.ofListing type shape firstFastest data, heap) := by
  have order : Payload.placementOrder (orderName firstFastest) =
      .ok firstFastest := by
    cases firstFastest <;> rfl
  refine except_bind_eq_ok_iff.mpr ⟨_, payloadDtype_eq_ok isType, ?_⟩
  refine except_bind_eq_ok_iff.mpr ⟨.bytes data, rfl, ?_⟩
  dsimp only
  rw [except_bind_of_eq_ok (lend_bytes isRaw admits length),
    except_bind_of_eq_ok (iterate_of_shapeOf? isShape)]
  dsimp only
  rw [except_bind_of_eq_ok order,
    except_bind_of_eq_ok (admits.extentsOf_eq isRaw),
    except_bind_of_eq_ok
      (NdArray.reshape_line isRaw admits firstFastest data)]
  rfl

theorem arrayOfBuffer_eq {typeValue shapeValue : Value}
    (isRaw : type.IsRaw) (admits : type.Admits shape)
    (length : data.length = shape.prod * type.itemSize)
    (isType : heap.toDtype typeValue = .ok type)
    (isShape : Payload.shapeOf? heap shapeValue = some shape) :
    Constructor.arrayOfBuffer
        (Call.ofArgs
          [.bytes data, typeValue, shapeValue, orderName firstFastest]) heap =
      .ok (heap.alloc
        (.array (NdArray.ofListing type shape firstFastest data))) := by
  refine except_bind_eq_ok_iff.mpr ⟨_, rfl, ?_⟩
  exact except_bind_eq_ok_iff.mpr
    ⟨_, ofLentBuffer_eq isRaw admits length isType isShape, rfl⟩

/-! ## Records -/

namespace Record

theorem field?_setField (record : Record) (name : Text) (value : Value)
    (other : String) :
    (record.setField name value).field? other =
      if name = Text.ofString other then some value
      else record.field? other :=
  Entries.find?_insert_str name (Text.ofString other) value record.fields

/-- The fields of a record give the shape, the type, the order and the bytes of
an array. -/
structure Keeps (record : Record) (heap : Heap) (type : Dtype)
    (shape : List Nat) (firstFastest : Bool) (data : Bytes) : Prop where
  isShape : ∃ value, record.field? "shape" = some value ∧
    Payload.shapeOf? heap value = some shape
  isType : heap.toDtype (record.field "dtype") = .ok type
  isOrder : record.field "fortran_order" = .bool firstFastest
  isData : record.field "data" = .bytes data

theorem Keeps.arrayOfRecord_eq {record : Record}
    (keeps : record.Keeps heap type shape firstFastest data)
    (isRaw : type.IsRaw) (admits : type.Admits shape)
    (length : data.length = shape.prod * type.itemSize) :
    heap.arrayOfRecord record =
      .ok (NdArray.ofListing type shape firstFastest data, heap) := by
  obtain ⟨⟨extents, hasShape, isShape⟩, isType, isOrder, isData⟩ := keeps
  have iterated : heap.iterate
      ((record.field? "shape").getD (.tuple [])) =
        .ok (shape.map extentValue, heap) := by
    rw [hasShape]
    exact iterate_of_shapeOf? isShape
  have count : (data.length : Int) = shape.prod * type.itemSize := by
    rw [length, Int.natCast_mul]
  refine except_bind_eq_ok_iff.mpr ⟨_, congrArg liftM iterated, ?_⟩
  refine except_bind_eq_ok_iff.mpr ⟨_, isType, ?_⟩
  refine except_bind_eq_ok_iff.mpr ⟨firstFastest, by rw [isOrder]; rfl, ?_⟩
  dsimp only
  rw [isRaw.hasObject, if_neg Bool.false_ne_true, isData]
  refine except_bind_eq_ok_iff.mpr ⟨.bytes data, rfl, ?_⟩
  refine except_bind_eq_ok_iff.mpr
    ⟨_, congrArg liftM (elementCount_extentValues isRaw admits), ?_⟩
  refine except_bind_eq_ok_iff.mpr ⟨data.length, rfl, ?_⟩
  rw [if_neg (not_not_intro count)]
  refine except_bind_eq_ok_iff.mpr
    ⟨_, congrArg liftM (lend_bytes isRaw admits length), ?_⟩
  refine except_bind_eq_ok_iff.mpr
    ⟨_, congrArg liftM (admits.extentsOf_eq isRaw), ?_⟩
  exact except_bind_eq_ok_iff.mpr
    ⟨_, congrArg liftM
      (NdArray.reshape_line isRaw admits firstFastest data), rfl⟩

theorem Keeps.rebuild_eq {record : Record}
    (keeps : record.Keeps heap type shape firstFastest data)
    (isArray : record.kind = .ndarray)
    (isRaw : type.IsRaw) (admits : type.Admits shape)
    (length : data.length = shape.prod * type.itemSize) :
    heap.rebuild record =
      .ok (heap.alloc
        (.array (NdArray.ofListing type shape firstFastest data))) := by
  unfold Heap.rebuild
  rw [isArray]
  exact except_bind_eq_ok_iff.mpr
    ⟨_, keeps.arrayOfRecord_eq isRaw admits length, rfl⟩

/-- A state of an array is filled into the fields of its parts. -/
theorem field?_fillPositions (record : Record)
    (version shape type order data : Value) (name : String) :
    (record.fillPositions (Catalog.arrayState.map Text.ofString)
        [version, shape, type, order, data]).field? name =
      if name = "data" then some data
      else if name = "fortran_order" then some order
      else if name = "dtype" then some type
      else if name = "shape" then some shape
      else if name = "version" then some version
      else record.field? name := by
  simp [fillPositions, Catalog.arrayState, field?_setField,
    Text.ofString_inj, eq_comm]

/-- A state of an array gives a record the fields of the array. -/
theorem keeps_fillPositions (record : Record)
    {version shapeValue typeValue : Value}
    (isType : heap.toDtype typeValue = .ok type)
    (isShape : Payload.shapeOf? heap shapeValue = some shape) :
    (record.fillPositions (Catalog.arrayState.map Text.ofString)
      [version, shapeValue, typeValue, .bool firstFastest,
        .bytes data]).Keeps heap type shape firstFastest data := by
  have fields := field?_fillPositions record version shapeValue typeValue
    (.bool firstFastest) (.bytes data)
  constructor
  · exact ⟨shapeValue, fields "shape", isShape⟩
  · rw [field, fields]
    exact isType
  · rw [field, fields]
    rfl
  · rw [field, fields]
    rfl

end Record

end PickleGraph

/-!
## Arrays of objects

The values of an array of objects come from a list. Each of them is an item of
the list as it is, whatever it may hold itself, and the order says only where it
stands.
-/

namespace PickleGraph

open Actions

variable {shape : List Nat} {firstFastest : Bool} {items : List Value}
variable {heap : Heap}

namespace NdArray

/-! ## Values of an array -/

/-- The array of one dimension that holds these values. -/
def ofItems (values : List Value) : NdArray :=
  ⟨.object, [values.length], .items values, true⟩

/-- The array of the items that are listed in one order or in the other. -/
def ofItemListing (shape : List Nat) (firstFastest : Bool)
    (items : List Value) : NdArray where
  type := .object
  shape := shape
  content := .items (if firstFastest then toRowMajor shape items else items)
  writable := true

/-- The value at an index, if the array holds values. -/
def item? (array : NdArray) (index : List Nat) : Option Value :=
  match array.content with
  | .raw _ => none
  | .items values => values[rowMajorPlace array.shape index]?

/-- The array has a shape, and its values are the items of the list: each one
stands in the list at the place of its index, in one order or in the other. -/
structure Holds (shape : List Nat) (firstFastest : Bool)
    (items : List Value) (array : NdArray) : Prop where
  isType : array.type = .object
  isShape : array.shape = shape
  length : ∃ values, array.content = .items values ∧
    values.length = shape.prod
  item : ∀ index, IsIndex shape index →
    ∃ inRange : place firstFastest shape index < items.length,
      array.item? index = some items[place firstFastest shape index]

theorem place_lt {index : List Nat} (firstFastest : Bool)
    (isIndex : IsIndex shape index) :
    place firstFastest shape index < shape.prod := by
  cases firstFastest with
  | false => exact rowMajorPlace_lt isIndex
  | true => exact columnMajorPlace_lt isIndex

theorem holds_ofItemListing (firstFastest : Bool)
    (count : items.length = shape.prod) :
    (ofItemListing shape firstFastest items).Holds shape firstFastest
      items := by
  refine ⟨rfl, rfl, ⟨_, rfl, ?_⟩, fun index isIndex => ?_⟩
  · cases firstFastest with
    | false => exact count
    | true => exact length_toRowMajor count
  · have inRange : place firstFastest shape index < items.length :=
      count ▸ place_lt firstFastest isIndex
    have listed := List.getElem?_eq_getElem inRange
    refine ⟨inRange, ?_⟩
    cases firstFastest with
    | false => exact listed
    | true => exact (getElem?_toRowMajor count isIndex).trans listed

/-! ## Shapes -/

theorem size_ofItems (items : List Value) :
    (ofItems items).size = items.length :=
  Nat.one_mul _

theorem reshape_ofItems (admits : Dtype.object.Admits shape)
    (count : items.length = shape.prod) (firstFastest : Bool) :
    (ofItems items).reshape (shape.map Int.ofNat) firstFastest =
      .ok (ofItemListing shape firstFastest items) := by
  have inRange : spreadOf shape < 2 ^ 63 :=
    Nat.lt_of_le_of_lt (Nat.le_mul_of_pos_right _ (by decide))
      admits.inRange
  have fitting : fits (ofItems items).type shape = true :=
    fits_of_lt admits.dimensions admits.inRange
  unfold reshape
  rw [size_ofItems, count, completeShape?_eq inRange]
  simp only [fitting, Bool.not_true, if_neg Bool.false_ne_true]
  cases firstFastest with
  | false => rfl
  | true =>
      have inLine : ofRowMajor [items.length] items = items :=
        toRowMajor_line items
      have rearranged : (ofItems items).rearrange shape =
          .items (toRowMajor shape items) :=
        congrArg (fun values => ArrayContent.items (toRowMajor shape values))
          inLine
      rw [rearranged]
      rfl

end NdArray

/-- There are few enough extents, and they are small enough for objects. -/
theorem Dtype.admits_object (few : shape.length ≤ 64)
    (small : spreadOf shape < 2 ^ 59) : Dtype.object.Admits shape := by
  have width : Dtype.object.itemSize = 8 := rfl
  refine ⟨few, ?_⟩
  rw [width]
  omega

/-! ## Records -/

namespace Record

/-- The fields of a record give the shape, a type with objects, the order and
the list of the items of an array. -/
structure KeepsItems (record : Record) (heap : Heap) (shape : List Nat)
    (firstFastest : Bool) (items : List Value) : Prop where
  isShape : ∃ value, record.field? "shape" = some value ∧
    Payload.shapeOf? heap value = some shape
  isType : ∃ type, heap.toDtype (record.field "dtype") = .ok type ∧
    type.hasObject = true
  isOrder : record.field "fortran_order" = .bool firstFastest
  isData : ∃ address, record.field "data" = .object address ∧
    heap.get address = .list items.toArray

variable {record : Record}

theorem KeepsItems.arrayOfRecord_eq
    (keeps : record.KeepsItems heap shape firstFastest items)
    (admits : Dtype.object.Admits shape)
    (count : items.length = shape.prod) :
    heap.arrayOfRecord record =
      .ok (.ofItemListing shape firstFastest items, heap) := by
  obtain ⟨⟨extents, hasShape, isShape⟩, ⟨type, isType, hasObject⟩, isOrder,
    ⟨address, isData, isList⟩⟩ := keeps
  have iterated : heap.iterate
      ((record.field? "shape").getD (.tuple [])) =
        .ok (shape.map extentValue, heap) := by
    rw [hasShape]
    exact iterate_of_shapeOf? isShape
  have length : heap.length (.object address) = .ok items.length := by
    unfold Heap.length
    simp only [Value.plain, isList, List.size_toArray]
  have spread : heap.spread items.length (.object address) =
      .ok (items, heap) := by
    unfold Heap.spread Heap.lentArray?
    simp only [isList]
  have extents : NdArray.extentsOf (shape.map extentValue) =
      .ok (shape.map Int.ofNat) := by
    refine extentsOf_extentValues admits.dimensions fun extent member => ?_
    calc extent
      _ ≤ spreadOf shape := le_spreadOf member
      _ ≤ spreadOf shape * Dtype.object.itemSize :=
          Nat.le_mul_of_pos_right _ (by decide)
      _ < 2 ^ 63 := admits.inRange
  refine except_bind_eq_ok_iff.mpr ⟨_, congrArg liftM iterated, ?_⟩
  refine except_bind_eq_ok_iff.mpr ⟨_, isType, ?_⟩
  refine except_bind_eq_ok_iff.mpr ⟨firstFastest, by rw [isOrder]; rfl, ?_⟩
  dsimp only
  rw [if_pos hasObject, isData]
  refine except_bind_eq_ok_iff.mpr ⟨_, congrArg liftM length, ?_⟩
  refine except_bind_eq_ok_iff.mpr ⟨_, congrArg liftM spread, ?_⟩
  refine except_bind_eq_ok_iff.mpr ⟨_, congrArg liftM extents, ?_⟩
  exact except_bind_eq_ok_iff.mpr
    ⟨_, congrArg liftM (NdArray.reshape_ofItems admits count firstFastest),
      rfl⟩

theorem KeepsItems.rebuild_eq
    (keeps : record.KeepsItems heap shape firstFastest items)
    (isArray : record.kind = .ndarray)
    (admits : Dtype.object.Admits shape)
    (count : items.length = shape.prod) :
    heap.rebuild record =
      .ok (heap.alloc
        (.array (.ofItemListing shape firstFastest items))) := by
  unfold Heap.rebuild
  rw [isArray]
  exact except_bind_eq_ok_iff.mpr
    ⟨_, keeps.arrayOfRecord_eq admits count, rfl⟩

end Record

end PickleGraph
