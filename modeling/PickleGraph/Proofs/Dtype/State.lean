import PickleGraph.NdArray.OfRecord
import PickleGraph.Proofs.Dtype.Layout
import PickleGraph.Proofs.Heap.Object
import PickleGraph.Proofs.Registry.Governed

/-!
# Types and their states

A type is stored as a record that is made from its code and takes a state of its
byte order, its base and extents, its names and fields, its size, and its unit
of time. The types of a base and of fields are records too, which may be shared.
Every valid type can be stored beside what a heap holds already.
-/

namespace PickleGraph

/-- How a record of a type is made and filled. -/
def Catalog.dtypeStrategy : Strategy :=
  .extension "numpy.dtype" .dtype
    (["obj", "align", "copy"].map Text.ofString)
    (dtypeState.map Text.ofString)

theorem Catalog.mem_arrayTypes_dtype :
    ⟨"numpy", "dtype", dtypeStrategy⟩ ∈ arrayTypes :=
  List.mem_append_left _ List.mem_cons_self

/-! ## What is stored of a type -/

namespace Dtype

/-- The code that the record of a type is made from. -/
def storedCode : Dtype → Text
  | element kind size _ _ => plainCode kind size
  | type => Text.ofString "V" ++ Text.ofInt type.itemSize

def storedOrder : Dtype → Text
  | element kind size bigEndian _ =>
      if kind.hasByteOrder size then
        if bigEndian then Text.ofString ">" else Text.ofString "<"
      else
        Text.ofString "|"
  | _ => Text.ofString "|"

/-- The size of elements that may have any size. -/
def storedSize : Dtype → Int
  | element kind size _ _ => if kind.isFlexible then size else -1
  | type => type.itemSize

/-- The state of a type. The metadata may be missing. -/
def storedState (type : Dtype) (version subarray names fields alignment
    flags : Value) (metadata? : Option Value) : List Value :=
  [version, .str type.storedOrder, subarray, names, fields,
    .int type.storedSize, alignment, flags] ++ metadata?.toList

/-- The name of a unit and its multiple, one denominator and one event. -/
def storedUnit : Option TimeUnit → List Value
  | none => [.bytes (Bytes.ofString genericUnit), .int 1, .int 1, .int 1]
  | some unit =>
      [.bytes (Bytes.ofString unit.name), .int unit.count, .int 1, .int 1]

/-- The metadata of times hold the unit behind other data. Those of other types
are not looked at. -/
def StoresUnit (type : Dtype) (metadata? : Option Value) : Prop :=
  match type with
  | element .timedelta _ _ unit | element .datetime _ _ unit =>
      ∃ others : Value,
        metadata? = some (.tuple [others, .tuple (storedUnit unit)])
  | _ => True

end Dtype

/-- A call of a type creates this record. -/
def TypeRef.Creates (reference : TypeRef) (args : List Value)
    (record : Record) : Prop :=
  ∃ heap : Heap, reference.instantiate (Call.ofArgs args) heap =
    .ok (heap.alloc (.record record))

/-- The record at an address stores a type with these values for a base and
extents, for names and for fields: it was made from the code of the type, and
then it took the state. -/
inductive Heap.Stores (heap : Heap) (address : Address) (type : Dtype)
    (subarray names fields : Value) : Prop
  | intro {reference : TypeRef} {align copy version alignment flags : Value}
      {metadata? : Option Value} {meanwhile : Heap} {made record : Record} :
      reference.strategy = Catalog.dtypeStrategy →
      reference.Creates [.str type.storedCode, align, copy] made →
      type.StoresUnit metadata? →
      made.applyState meanwhile
          (.tuple (type.storedState version subarray names fields alignment
            flags metadata?)) =
        .ok record →
      heap.get address = .record record →
      Stores heap address type subarray names fields

/-- A value stands for a type: it is the record of the type, and what it holds
of other types stands for them. -/
inductive Heap.Describes (heap : Heap) : Value → Dtype → Prop
  | element {address : Address} {kind : ElementKind} {size : Nat}
      {bigEndian : Bool} {unit : Option TimeUnit} :
      heap.Stores address (.element kind size bigEndian unit)
        .none .none .none →
      Describes heap (.object address) (.element kind size bigEndian unit)
  | subarray {address : Address} {value : Value} {base : Dtype}
      {shape : List Nat} :
      heap.Stores address (.subarray base shape)
        (.tuple [value, .tuple (shape.map extentValue)]) .none .none →
      Describes heap value base →
      Describes heap (.object address) (.subarray base shape)
  | struct {address place : Address} {ordered : Bool}
      {entries : List (Value × Value)} {types : Text → Value}
      {fields : List (Text × Nat × Dtype)} {size : Nat} :
      heap.Stores address (.struct fields size) .none
        (.tuple (fields.map fun field => .str field.1)) (.object place) →
      heap.get place = .dict ordered entries →
      (∀ field ∈ fields, Entries.find? (.str field.1) entries =
        some (.tuple [types field.1, .int field.2.1])) →
      (∀ field ∈ fields, Describes heap (types field.1) field.2.2) →
      Describes heap (.object address) (.struct fields size)

/-! ## Making and filling -/

/-- A record of a type before it takes a state. -/
def TypeRef.fresh (reference : TypeRef) (args : List Value) : Record where
  kind := .dtype
  module := reference.module
  name := reference.name
  target := reference.strategy.target
  strategy := reference.strategy
  args := args
  fields := reference.strategy.initialFields (Call.ofArgs args)

section Making

variable {reference : TypeRef}
  (isDtype : reference.strategy = Catalog.dtypeStrategy)

include isDtype

theorem TypeRef.instantiate_fresh (args : List Value) (heap : Heap) :
    reference.instantiate (Call.ofArgs args) heap =
      .ok (heap.alloc (.record (reference.fresh args))) := by
  unfold instantiate instantiateWith newRecord fresh
  rw [isDtype]
  rfl

theorem TypeRef.creates_fresh (args : List Value) :
    reference.Creates args (reference.fresh args) :=
  ⟨Heap.empty, instantiate_fresh isDtype args Heap.empty⟩

theorem TypeRef.Creates.eq_fresh {args : List Value} {record : Record}
    (creates : reference.Creates args record) :
    record = reference.fresh args := by
  obtain ⟨heap, made⟩ := creates
  rw [instantiate_fresh isDtype] at made
  have same := congrArg (fun outcome : Value × Heap =>
    outcome.2.get heap.objects.size) (Except.ok.inj made)
  rw [Heap.get_alloc_self, Heap.get_alloc_self] at same
  exact (Object.record.inj same).symm

theorem TypeRef.field?_fresh (code align copy : Value) (name : String) :
    (reference.fresh [code, align, copy]).field? name =
      [("copy", copy), ("align", align), ("obj", code)].lookup name := by
  have merged := Entries.findText?_merge_named name []
    [("obj", code), ("align", align), ("copy", copy)]
  have nothing : Entries.findText? name [] = none := rfl
  rw [nothing, Option.or_none] at merged
  unfold Record.field? fresh
  rw [isDtype]
  exact merged

end Making

theorem lookup_singleton_or {α : Type} (pair : String × α) (name : String)
    (other : Option α) :
    ([pair].lookup name).or other =
      if pair.1 = name then some pair.2 else other := by
  by_cases same : pair.1 = name
  · rw [if_pos same, List.lookup_cons, beq_iff_eq.mpr same.symm]
    rfl
  · have apart : (name == pair.1) = false := beq_false_of_ne (Ne.symm same)
    rw [if_neg same, List.lookup_cons, apart]
    rfl

namespace Record

/-- Values that are filled in by position are found under their names. -/
theorem field?_fillPositions_of_le (record : Record) {names : List String}
    {values : List Value} (few : values.length ≤ names.length)
    (name : String) :
    (record.fillPositions (names.map Text.ofString) values).field? name =
      ((names.zip values).reverse.lookup name).or (record.field? name) := by
  have filled : ∀ pairs : List (String × Value),
      ((pairs.map fun pair => (Text.ofString pair.1, pair.2)).foldl
        (fun record (pair : Text × Value) => record.setField pair.1 pair.2)
        record).field? name =
          (pairs.reverse.lookup name).or (record.field? name) := by
    intro pairs
    induction pairs generalizing record with
    | nil => rfl
    | cons pair rest inductionHypothesis =>
        rw [List.map_cons, List.foldl_cons, inductionHypothesis,
          field?_setField, List.reverse_cons, List.lookup_append,
          Option.or_assoc, lookup_singleton_or]
        simp only [Text.ofString_inj]
  unfold fillPositions
  dsimp only
  rw [List.length_map, if_neg (Nat.not_lt.mpr few), List.zip_map_left]
  exact filled _

/-- A tuple fills a record of a type by position. -/
theorem applyState_tuple {record : Record}
    (isDtype : record.strategy = Catalog.dtypeStrategy) (heap : Heap)
    (values : List Value) :
    record.applyState heap (.tuple values) =
      .ok (record.fillPositions (Catalog.dtypeState.map Text.ofString)
        values) := by
  unfold applyState
  rw [isDtype]
  rfl

/-- What a record of a type holds. -/
structure HoldsType (record : Record) (type : Dtype)
    (subarray names fields : Value) : Prop where
  kind : record.kind = .dtype
  code : record.field "obj" = .str type.storedCode
  order : record.field "byteorder" = .str type.storedOrder
  subarray : record.field "subdescr" = subarray
  names : record.field "names" = names
  fields : record.field "fields" = fields
  size : record.field? "elsize" = some (.int type.storedSize)
  unit : type.StoresUnit (record.field? "metadata")

end Record

/-- A record of a type holds what its code and its state say. -/
theorem Heap.Stores.exists_record {heap : Heap} {address : Address}
    {type : Dtype} {subarray names fields : Value}
    (stores : heap.Stores address type subarray names fields) :
    ∃ record, heap.record? (.object address) = some (address, record) ∧
      record.HoldsType type subarray names fields := by
  cases stores with
  | @intro reference align copy version alignment flags metadata? meanwhile
      made record isDtype creates storesUnit applied here =>
  refine ⟨record, ?_, ?_⟩
  · unfold Heap.record?
    dsimp only
    rw [here]
  obtain rfl := creates.eq_fresh isDtype
  have kept : record.kind = .dtype :=
    congrArg Record.kind (Record.refills_applyState applied)
  have few : (type.storedState version subarray names fields alignment flags
      metadata?).length ≤ Catalog.dtypeState.length := by
    cases metadata? <;> exact Nat.le_of_ble_eq_true rfl
  have found : ∀ name, record.field? name =
      ((Catalog.dtypeState.zip (type.storedState version subarray names fields
        alignment flags metadata?)).reverse.lookup name).or
          ([("copy", copy), ("align", align),
            ("obj", .str type.storedCode)].lookup name) := by
    intro name
    rw [Record.applyState_tuple isDtype] at applied
    rw [← Except.ok.inj applied, Record.field?_fillPositions_of_le _ few,
      TypeRef.field?_fresh isDtype]
  constructor
  case kind => exact kept
  case unit =>
    rw [found]
    cases metadata? <;> exact storesUnit
  case size =>
    rw [found]
    cases metadata? <;> rfl
  all_goals
    rw [Record.field, found]
    cases metadata? <;> rfl

/-! ## Every type can be stored -/

namespace Dtype

def storedMetadata? : Dtype → Option Value
  | element .timedelta _ _ unit | element .datetime _ _ unit =>
      some (.tuple [.none, .tuple (storedUnit unit)])
  | _ => none

/-- A record that stores a type. -/
def storedRecord (type : Dtype) (subarray names fields : Value) : Record :=
  let reference : TypeRef := ⟨"numpy", "dtype", Catalog.dtypeStrategy⟩
  (reference.fresh
      [.str type.storedCode, .bool false, .bool true]).fillPositions
    (Catalog.dtypeState.map Text.ofString)
    (type.storedState (.int 3) subarray names fields (.int (-1)) (.int 0)
      type.storedMetadata?)

theorem storesUnit_storedMetadata? (type : Dtype) :
    type.StoresUnit type.storedMetadata? := by
  unfold StoresUnit storedMetadata?
  split
  · exact ⟨.none, rfl⟩
  · exact ⟨.none, rfl⟩
  · trivial

end Dtype

namespace Heap

variable {heap before after : Heap} {address : Address} {value : Value}
  {type : Dtype} {subarray names fields : Value}

theorem stores_of_get
    (here : heap.get address =
      .record (type.storedRecord subarray names fields)) :
    heap.Stores address type subarray names fields :=
  .intro rfl (TypeRef.creates_fresh rfl _) type.storesUnit_storedMetadata?
    (Record.applyState_tuple rfl heap _) here

theorem Stores.mono
    (stores : before.Stores address type subarray names fields)
    (extends_ : Extends [] before after) :
    after.Stores address type subarray names fields := by
  cases stores with
  | intro isDtype creates storesUnit applied here =>
      exact .intro isDtype creates storesUnit applied
        (extends_.get here nofun)

/-- What stands for a type does so in a larger heap. -/
theorem Describes.mono (describes : before.Describes value type)
    (extends_ : Extends [] before after) : after.Describes value type := by
  induction describes with
  | element stores => exact .element (stores.mono extends_)
  | subarray stores _ inductionHypothesis =>
      exact .subarray (stores.mono extends_) inductionHypothesis
  | struct stores isMapping found _ inductionHypothesis =>
      exact .struct (stores.mono extends_) (extends_.get isMapping nofun)
        found inductionHypothesis

/-- Types can be stored one after the other. -/
theorem exists_types {fields : List (Text × Nat × Dtype)}
    (distinct : (fields.map (·.1)).Nodup)
    (each : ∀ field ∈ fields, ∀ heap : Heap, ∃ value after,
      Extends [] heap after ∧ after.Describes value field.2.2)
    (heap : Heap) :
    ∃ (types : Text → Value) (after : Heap), Extends [] heap after ∧
      ∀ field ∈ fields, after.Describes (types field.1) field.2.2 := by
  induction fields generalizing heap with
  | nil => exact ⟨fun _ => .none, heap, .refl [] heap, nofun⟩
  | cons field rest inductionHypothesis =>
      obtain ⟨isNew, distinctRest⟩ := List.nodup_cons.mp distinct
      obtain ⟨types, middle, extendsRest, areDescribed⟩ :=
        inductionHypothesis distinctRest
          (fun other member => each other (List.mem_cons_of_mem _ member)) heap
      obtain ⟨value, after, extendsFirst, isDescribed⟩ :=
        each field List.mem_cons_self middle
      refine ⟨Function.update types field.1 value, after,
        extendsRest.trans extendsFirst nofun, ?_⟩
      intro other member
      rcases List.mem_cons.mp member with rfl | member
      · rw [Function.update_self]
        exact isDescribed
      · have differs : other.1 ≠ field.1 := by
          intro same
          exact isNew (List.mem_map.mpr ⟨other, member, same⟩)
        rw [Function.update_of_ne differs]
        exact (areDescribed other member).mono extendsFirst

end Heap

theorem Entries.find?_map_str {fields : List (Text × Nat × Dtype)}
    (distinct : (fields.map (·.1)).Nodup)
    (value : Text × Nat × Dtype → Value) {field : Text × Nat × Dtype}
    (member : field ∈ fields) :
    find? (.str field.1)
        (fields.map fun field => (.str field.1, value field)) =
      some (value field) := by
  induction fields with
  | nil => cases member
  | cons first rest inductionHypothesis =>
      obtain ⟨isNew, distinctRest⟩ := List.nodup_cons.mp distinct
      rw [List.map_cons, find?_str_cons]
      rcases List.mem_cons.mp member with rfl | member
      · rw [if_pos rfl]
      · have differs : first.1 ≠ field.1 := fun same =>
          isNew (List.mem_map.mpr ⟨field, member, same.symm⟩)
        rw [if_neg differs]
        exact inductionHypothesis distinctRest member

/-- Beside what a heap holds, every valid type can be stored. -/
theorem Dtype.IsValid.exists_describes {type : Dtype}
    (isValid : type.IsValid) (heap : Heap) :
    ∃ value after, Heap.Extends [] heap after ∧
      after.Describes value type := by
  have stored : ∀ (heap : Heap) (type : Dtype) (subarray names fields : Value),
      (heap.alloc (.record
        (type.storedRecord subarray names fields))).2.Stores
          heap.objects.size type subarray names fields :=
    fun heap _ _ _ _ => Heap.stores_of_get (heap.get_alloc_self _)
  induction isValid generalizing heap with
  | element _ _ =>
      exact ⟨_, _, .alloc heap _, .element (stored heap _ _ _ _)⟩
  | time _ _ =>
      exact ⟨_, _, .alloc heap _, .element (stored heap _ _ _ _)⟩
  | subarray _ _ _ inductionHypothesis =>
      obtain ⟨value, middle, extends_, describes⟩ := inductionHypothesis heap
      exact ⟨_, _, extends_.trans (.alloc middle _) nofun,
        .subarray (stored middle _ _ _ _) (describes.mono (.alloc middle _))⟩
  | @struct fields size _ laysOut inductionHypothesis =>
      obtain ⟨types, middle, extends_, describe⟩ :=
        Heap.exists_types laysOut.distinct inductionHypothesis heap
      let entries := fields.map fun field =>
        (Value.str field.1, Value.tuple [types field.1, .int field.2.1])
      let mapped := (middle.alloc (.dict false entries)).2
      let record := (Dtype.struct fields size).storedRecord .none
        (.tuple (fields.map fun field => .str field.1))
        (.object middle.objects.size)
      have first : Heap.Extends [] middle mapped := .alloc middle _
      have last : Heap.Extends [] mapped (mapped.alloc (.record record)).2 :=
        .alloc mapped _
      have isMapping := last.get (middle.get_alloc_self _) nofun
      have found : ∀ field ∈ fields, Entries.find? (.str field.1) entries =
          some (.tuple [types field.1, .int field.2.1]) :=
        fun field member => Entries.find?_map_str laysOut.distinct _ member
      have describeLast := fun field member =>
        ((describe field member).mono first).mono last
      exact ⟨_, _, (extends_.trans first nofun).trans last nofun,
        .struct (stored mapped _ _ _ _) isMapping found describeLast⟩

end PickleGraph
