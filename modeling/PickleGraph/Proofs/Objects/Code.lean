import PickleGraph.Proofs.Array.Header
import PickleGraph.Proofs.Array.Rebuilding
import PickleGraph.Proofs.Construction.State
import PickleGraph.Proofs.Heap.Object
import PickleGraph.Proofs.Objects.Inside
import PickleGraph.Proofs.Plain.Scalar
import PickleGraph.Proofs.Text.Ascii

/-!
# Arrays of objects as code

A placeholder for an array of objects gets a type and a shape. The pickle inside
makes the record of an array, whose state holds the items in a list.
-/

namespace PickleGraph

open Actions

/-- The types that the arrays of objects are made of are bound as the catalogue
says. -/
structure Registry.BindsArrays (registry : Registry) : Prop where
  wrapper :
    registry.resolve (Catalog.key "joblib.numpy_pickle" "NumpyArrayWrapper") =
      .ok (.array "numpy.ndarray" .inline)
  record :
    registry.resolve (Catalog.key "numpy.core.multiarray" "_reconstruct") =
      .ok Catalog.arrayStrategy

namespace Objects

/-! ## Code -/

def lineCode (line : String) : Bytes :=
  Bytes.ofString line ++ [0x0A]

/-- Makes an instance without arguments. -/
def instanceCode (module name : String) (opcode : Opcode) : Bytes :=
  Opcode.global.code :: (lineCode module ++ lineCode name) ++
    ([Opcode.emptyTuple.code] ++ [opcode.code])

def textCode (text : String) : Bytes :=
  Opcode.binUnicode.code ::
    Scalar.counted 4 (Utf8.encodeGeneralized (Text.ofString text))

/-- The shape of a line of so many items. -/
def shapeCode (size : Nat) : Bytes :=
  Opcode.binInt.code :: Bytes.ofIntLE 4 size ++ [Opcode.tuple1.code]

/-- A placeholder and the state that it is going to get. -/
def placeholderCode (size : Nat) : Bytes :=
  instanceCode "joblib.numpy_pickle" "NumpyArrayWrapper" .newObj ++
    Execution.marked
      (textCode "dtype" ++ (textCode "O" ++
        (textCode "shape" ++ shapeCode size)))
      .dict

/-- The record of an array, and its state up to the items. -/
def headCode (size : Nat) : Bytes :=
  instanceCode "numpy.core.multiarray" "_reconstruct" .reduce ++
    ([Opcode.mark.code] ++
      (Opcode.binInt1.code :: Bytes.ofNatLE 1 1 ++
        (shapeCode size ++ (textCode "O" ++
          ([Opcode.newFalse.code] ++ [Opcode.mark.code])))))

/-- The end of the state of an array, which is given to the record. -/
def tailCode : Bytes :=
  [Opcode.list.code] ++ ([Opcode.tuple.code] ++ [Opcode.build.code])

/-- An array of objects whose items have this code. -/
def arrayCode (size : Nat) (code : Bytes) : Bytes :=
  placeholderCode size ++
    Opcode.build.code ::
      (headCode size ++ (code ++ tailCode) ++ [Opcode.stop.code])

/-- A name in ASCII can be written on a line of its own. -/
def IsLine (line : String) : Prop :=
  ∀ character ∈ line.toList, character.toNat < 0x80 ∧ character ≠ '\n'

instance (line : String) : Decidable (IsLine line) :=
  List.decidableBAll
    (fun character : Char => character.toNat < 0x80 ∧ character ≠ '\n')
    line.toList

open Execution Instruction Decoding

variable {options : Options} {stack : List Value}
variable {marks : List (List Value)} {memo : List (Nat × Value)} {heap : Heap}

theorem executes_textCode {text : String}
    (short : (Utf8.encodeGeneralized (Text.ofString text)).length < 2 ^ 32) :
    Executes options (textCode text) ⟨stack, marks, memo, heap⟩
      ⟨.str (Text.ofString text) :: stack, marks, memo, heap⟩ :=
  .of_effect
    (Scalar.takes_text rfl
      ⟨short, Nat.le_trans (Nat.le_of_lt short) (by decide)⟩)
    (effect_push _)

theorem executes_shapeCode {size : Nat} (small : size < 2 ^ 31) :
    Executes options (shapeCode size) ⟨stack, marks, memo, heap⟩
      ⟨.tuple [extentValue size] :: stack, marks, memo, heap⟩ := by
  have fits : Bytes.FitsSigned 4 size := by
    constructor <;> omega
  have number : Executes options
      (Opcode.binInt.code :: Bytes.ofIntLE 4 size)
      ⟨stack, marks, memo, heap⟩
      ⟨extentValue size :: stack, marks, memo, heap⟩ :=
    .of_effect (.map (fun number => Instruction.push (.int number))
      (takes_signed (by decide) fits)) (effect_push _)
  have line : Effect options (.tupleOf 1)
      ⟨[extentValue size].reverse ++ stack, marks, memo, heap⟩
      ⟨.tuple [extentValue size] :: stack, marks, memo, heap⟩ :=
    effect_tupleOf rfl
  exact number.append (.bare .tuple1 rfl line)

/-! ## Instances -/

theorem isTextLine_ofString {name : String} (isLine : IsLine name) :
    IsTextLine (Bytes.ofString name) (Text.ofString name) := by
  have isAscii : (Bytes.ofString name).IsAscii := by
    intro byte member
    obtain ⟨character, isMember, rfl⟩ := List.mem_map.mp member
    have small := (isLine character isMember).1
    rw [UInt8.lt_iff_toNat_lt, UInt8.toNat_ofNat']
    exact Nat.lt_of_le_of_lt (Nat.mod_le _ _) small
  have noNewline : (0x0A : UInt8) ∉ Bytes.ofString name := by
    intro member
    obtain ⟨character, isMember, same⟩ := List.mem_map.mp member
    obtain ⟨small, notNewline⟩ := isLine character isMember
    have code := congrArg UInt8.toNat same
    rw [UInt8.toNat_ofNat', Nat.mod_eq_of_lt (by omega)] at code
    exact notNewline (Char.toNat_inj.mp code)
  have isText : Text.ofLatin1 (Bytes.ofString name) = Text.ofString name := by
    refine (List.map_map ..).trans
      (List.map_congr_left fun character member => ?_)
    have small := (isLine character member).1
    refine Fin.ext ?_
    show (UInt8.ofNat character.toNat).toNat = character.toNat
    rw [UInt8.toNat_ofNat', Nat.mod_eq_of_lt (by omega)]
  exact ⟨noNewline, by rw [Utf8.decode_ascii isAscii, isText]⟩

theorem takes_nameLine {name : String} (isLine : IsLine name) :
    Takes nameLine (lineCode name) (Text.ofString name) :=
  takes_textLine (isTextLine_ofString isLine)

/-- The record of an instance that is made without arguments. -/
def newInstance (reference : TypeRef) (kind : RecordKind) : Record where
  kind
  module := reference.module
  name := reference.name
  target := reference.strategy.target
  strategy := reference.strategy
  args := []
  fields := reference.strategy.initialFields (Call.ofArgs [])

/-- The heap with a type and an instance of it. -/
def withInstance (heap : Heap) (reference : TypeRef) (kind : RecordKind) :
    Heap :=
  ((heap.alloc (.typeRef reference)).2.alloc
    (.record (newInstance reference kind))).2

/-- The place of the instance. -/
def placeAfter (heap : Heap) : Address :=
  heap.objects.size + 1

theorem size_withInstance (heap : Heap) (reference : TypeRef)
    (kind : RecordKind) :
    (withInstance heap reference kind).objects.size =
      placeAfter heap + 1 := by
  simp [withInstance, placeAfter]

theorem get_withInstance (heap : Heap) (reference : TypeRef)
    (kind : RecordKind) :
    (withInstance heap reference kind).get (placeAfter heap) =
      .record (newInstance reference kind) := by
  have place : placeAfter heap =
      (heap.alloc (.typeRef reference)).2.objects.size :=
    (Heap.size_alloc heap _).symm
  rw [place]
  exact Heap.get_alloc_self _ _

theorem extends_withInstance (heap : Heap) (reference : TypeRef)
    (kind : RecordKind) :
    Heap.Extends [] heap (withInstance heap reference kind) :=
  (Heap.Extends.alloc heap _).trans (Heap.Extends.alloc _ _) (by simp)

theorem executes_instanceCode {module name : String} {strategy : Strategy}
    {kind : RecordKind} {opcode : Opcode}
    (moduleLine : IsLine module) (nameLine : IsLine name)
    (resolved : options.registry.resolve (Catalog.key module name) =
      .ok strategy)
    (isKind : strategy.recordKind? = some kind)
    (makes : opcode = .newObj ∨ opcode = .reduce) :
    Executes options (instanceCode module name opcode)
      ⟨stack, marks, memo, heap⟩
      ⟨.object (placeAfter heap) :: stack, marks, memo,
        withInstance heap ⟨module, name, strategy⟩ kind⟩ := by
  have taken : Takes (ofOpcode options.rules .global)
      (lineCode module ++ lineCode name) (.global module name) :=
    .bind (takes_nameLine moduleLine)
      (.map (Instruction.global module) (takes_nameLine nameLine))
  have made : (heap.alloc (.typeRef ⟨module, name, strategy⟩)).2.instantiate
      (.object heap.objects.size) (Call.ofArgs []) =
        .ok (.object (placeAfter heap),
          withInstance heap ⟨module, name, strategy⟩ kind) := by
    rw [Heap.instantiate_eq (Heap.get_alloc_self heap _) isKind]
    have place : placeAfter heap =
        (heap.alloc (.typeRef ⟨module, name, strategy⟩)).2.objects.size :=
      (Heap.size_alloc heap _).symm
    rw [place]
    rfl
  have named : Executes options
      (Opcode.global.code :: (lineCode module ++ lineCode name))
      ⟨stack, marks, memo, heap⟩
      ⟨.object heap.objects.size :: stack, marks, memo,
        (heap.alloc (.typeRef ⟨module, name, strategy⟩)).2⟩ :=
    .of_effect taken (effect_global resolved)
  refine named.append (.append (.bare .emptyTuple rfl (effect_push _)) ?_)
  rcases makes with rfl | rfl
  · exact .bare .newObj rfl (effect_newObj made)
  · exact .bare .reduce rfl (effect_reduce made)

/-! ## Placeholders -/

def wrapperType : TypeRef where
  module := "joblib.numpy_pickle"
  name := "NumpyArrayWrapper"
  strategy := .array "numpy.ndarray" .inline

/-- The state of a placeholder for a line of so many objects. -/
def lineFields (size : Nat) : List (Value × Value) :=
  Entries.named
    [("dtype", .str (Text.ofString "O")),
      ("shape", .tuple [extentValue size])]

/-- The placeholder when it has got its state. -/
def placeholder (size : Nat) : Record :=
  (newInstance wrapperType .plain).update (lineFields size)

/-- The heap with a placeholder and its state. -/
def withPlaceholder (heap : Heap) (size : Nat) : Heap :=
  ((withInstance heap wrapperType .plain).alloc
    (.dict false (lineFields size))).2

theorem apart_lineFields (size : Nat) :
    Value.Apart ((lineFields size).map (·.1)) := by
  have different : Text.ofString "dtype" ≠ Text.ofString "shape" := by
    decide
  refine List.pairwise_pair.mpr ?_
  refine Bool.eq_false_iff.mpr fun matched => different ?_
  exact Value.str_matchesKey_str_iff.mp matched

theorem merge_lineFields (size : Nat) :
    Entries.merge [] (lineFields size) = lineFields size :=
  Entries.merge_of_apart (apart_lineFields size)

theorem executes_placeholderCode (binds : options.registry.BindsArrays)
    {size : Nat} (small : size < 2 ^ 31) :
    Executes options (placeholderCode size) ⟨stack, marks, memo, heap⟩
      ⟨.object (placeAfter heap + 1) :: .object (placeAfter heap) :: stack,
        marks, memo, withPlaceholder heap size⟩ := by
  have made : Executes options
      (instanceCode "joblib.numpy_pickle" "NumpyArrayWrapper" .newObj)
      ⟨stack, marks, memo, heap⟩
      ⟨.object (placeAfter heap) :: stack, marks, memo,
        withInstance heap wrapperType .plain⟩ :=
    executes_instanceCode (by decide) (by decide) binds.wrapper rfl
      (.inl rfl)
  let parts : List Value :=
    [.str (Text.ofString "dtype"), .str (Text.ofString "O"),
      .str (Text.ofString "shape"), .tuple [extentValue size]]
  have paired : pairUp? parts = some (lineFields size) := rfl
  have hashable : ∀ entry ∈ lineFields size,
      (withInstance heap wrapperType .plain).checkHashable entry.1 =
        .ok () := by
    simp [lineFields, Entries.named, Heap.checkHashable]
  have gathered : Effect options .dict
      ⟨parts.reverse, (.object (placeAfter heap) :: stack) :: marks, memo,
        withInstance heap wrapperType .plain⟩
      ⟨.object (placeAfter heap + 1) :: .object (placeAfter heap) :: stack,
        marks, memo, withPlaceholder heap size⟩ := by
    rw [withPlaceholder, ← merge_lineFields,
      ← size_withInstance heap wrapperType .plain]
    exact effect_dict paired hashable
      (Entries.reach_of_apart (apart_lineFields size))
  refine made.append (executes_marked ?_ rfl gathered)
  refine (executes_textCode (by decide)).append ?_
  refine (executes_textCode (by decide)).append ?_
  refine (executes_textCode (by decide)).append ?_
  exact executes_shapeCode small

theorem field?_placeholder (size : Nat) (name : String) :
    (placeholder size).field? name =
      ([("shape", .tuple [extentValue size]),
        ("dtype", .str (Text.ofString "O"))] : List (String × Value)).lookup name := by
  exact (Entries.findText?_merge_named name [] _).trans Option.or_none

theorem toDtype_objects :
    heap.toDtype (.str (Text.ofString "O")) = .ok .object :=
  Heap.toDtype_str rfl

theorem shapeOf?_line (heap : Heap) (size : Nat) :
    Payload.shapeOf? heap (.tuple [extentValue size]) = some [size] := by
  simp [Payload.shapeOf?, extentValue]

theorem awaitsObjects_withPlaceholder (heap : Heap) (size : Nat) :
    AwaitsObjects (withPlaceholder heap size) (placeAfter heap)
      (.object (placeAfter heap + 1)) (placeholder size) := by
  have place : placeAfter heap + 1 =
      (withInstance heap wrapperType .plain).objects.size :=
    (size_withInstance heap _ _).symm
  have state : (withPlaceholder heap size).get (placeAfter heap + 1) =
      .dict false (lineFields size) := by
    rw [place]
    exact Heap.get_alloc_self _ _
  have record : (withPlaceholder heap size).get (placeAfter heap) =
      .record (newInstance wrapperType .plain) := by
    have old : placeAfter heap ≠
        (withInstance heap wrapperType .plain).objects.size :=
      place ▸ Nat.ne_of_lt (Nat.lt_succ_self _)
    refine (Heap.get_alloc _ _ _).trans ?_
    rw [if_neg old, get_withInstance]
  have noOrder : Payload.orderField (placeholder size) =
      .str (Text.ofString "C") := by
    rw [Payload.orderField, field?_placeholder]
    rfl
  refine ⟨⟨_, record, Record.mergeState_dict state⟩,
    ⟨"numpy.ndarray", rfl⟩, ⟨.object, [size], false⟩, rfl, fun reader => ?_⟩
  refine ⟨⟨_, field?_placeholder size "dtype", ?_⟩,
    ⟨_, field?_placeholder size "shape", ?_⟩, ?_⟩
  · exact payloadDtype_eq_ok toDtype_objects
  · exact shapeOf?_line _ size
  · rw [noOrder]
    rfl

/-! ## Records of arrays -/

def recordType : TypeRef where
  module := "numpy.core.multiarray"
  name := "_reconstruct"
  strategy := Catalog.arrayStrategy

/-- The heap with a new record of an array. -/
abbrev withRecord (heap : Heap) : Heap :=
  withInstance heap recordType .ndarray

/-- The parts of the state of an array before its items, the last one first. -/
def partsBelow (size : Nat) : List Value :=
  [.bool false, .str (Text.ofString "O"), .tuple [extentValue size],
    extentValue 1]

theorem executes_headCode (binds : options.registry.BindsArrays)
    {size : Nat} (small : size < 2 ^ 31) :
    Executes options (headCode size) ⟨stack, marks, memo, heap⟩
      ⟨[], partsBelow size :: (.object (placeAfter heap) :: stack) :: marks,
        memo, withRecord heap⟩ := by
  have made : Executes options
      (instanceCode "numpy.core.multiarray" "_reconstruct" .reduce)
      ⟨stack, marks, memo, heap⟩
      ⟨.object (placeAfter heap) :: stack, marks, memo,
        withRecord heap⟩ :=
    executes_instanceCode (by decide) (by decide) binds.record rfl
      (.inr rfl)
  have version : ∀ marks, Executes options
      (Opcode.binInt1.code :: Bytes.ofNatLE 1 1)
      ⟨[], marks, memo, withRecord heap⟩
      ⟨[extentValue 1], marks, memo, withRecord heap⟩ :=
    fun _ => .of_effect (Scalar.takes_unsigned rfl (by decide))
      (effect_push _)
  refine made.append (.append (.bare .mark rfl effect_mark) ?_)
  refine (version _).append ((executes_shapeCode small).append ?_)
  refine (executes_textCode (by decide)).append ?_
  exact .append (.bare .newFalse rfl (effect_push _))
    (.bare .mark rfl effect_mark)

variable {values : List Value}

/-- The state of an array whose items are in a list. -/
def stateParts (size : Nat) (items : Address) : List Value :=
  (partsBelow size).reverse ++ [.object items]

/-- The record of an array when it has got its state. -/
def filledRecord (size : Nat) (items : Address) : Record :=
  (newInstance recordType .ndarray).fillPositions
    (Catalog.arrayState.map Text.ofString) (stateParts size items)

/-- The heap in which the record at a place has got its state. -/
def withItems (heap : Heap) (place : Address) (values : List Value) : Heap :=
  (heap.alloc (.list values.toArray)).2.set place
    (.record (filledRecord values.length heap.objects.size))

theorem executes_tailCode {place : Address}
    (here : heap.get place = .record (newInstance recordType .ndarray)) :
    Executes options tailCode
      ⟨values.reverse ++ [],
        partsBelow values.length :: (.object place :: stack) :: marks, memo,
        heap⟩
      ⟨.object place :: stack, marks, memo, withItems heap place values⟩ := by
  have kept : (heap.alloc (.list values.toArray)).2.get place =
      .record (newInstance recordType .ndarray) :=
    (Heap.Extends.alloc heap _).get here (by simp)
  have applied : (newInstance recordType .ndarray).applyState
      (heap.alloc (.list values.toArray)).2
      (.tuple (stateParts values.length heap.objects.size)) =
        .ok (filledRecord values.length heap.objects.size) := rfl
  have noArray : ∀ target layout,
      (filledRecord values.length heap.objects.size).strategy ≠
        .array target layout := by
    intro target layout same
    have strategy :
        (filledRecord values.length heap.objects.size).strategy =
          Catalog.arrayStrategy := rfl
    cases strategy.symm.trans same
  have gathered : Effect options .tuple
      ⟨.object heap.objects.size :: partsBelow values.length,
        (.object place :: stack) :: marks, memo,
        (heap.alloc (.list values.toArray)).2⟩
      ⟨.tuple (stateParts values.length heap.objects.size) ::
        .object place :: stack, marks, memo,
        (heap.alloc (.list values.toArray)).2⟩ :=
    effect_tuple (stateParts values.length heap.objects.size)
  rw [List.append_nil]
  refine .append (.bare .list rfl (effect_list values)) ?_
  exact .append (.bare .tuple rfl gathered)
    (.bare .build rfl (effect_build kept applied noArray))

theorem field?_filledRecord (size : Nat) (items : Address) (name : String) :
    (filledRecord size items).field? name =
      if name = "data" then some (.object items)
      else if name = "fortran_order" then some (.bool false)
      else if name = "dtype" then some (.str (Text.ofString "O"))
      else if name = "shape" then some (.tuple [extentValue size])
      else if name = "version" then some (extentValue 1)
      else (newInstance recordType .ndarray).field? name :=
  Record.field?_fillPositions _ _ _ _ _ _ name

theorem keepsItems_filledRecord {items : Address}
    (here : heap.get items = .list values.toArray) :
    (filledRecord values.length items).KeepsItems heap [values.length] false
      values := by
  have fields := field?_filledRecord values.length items
  have type : (filledRecord values.length items).field "dtype" =
      .str (Text.ofString "O") :=
    congrArg (·.getD .none) (fields "dtype")
  refine ⟨⟨_, fields "shape", shapeOf?_line heap _⟩, ⟨.object, ?_, rfl⟩, ?_,
    ⟨items, ?_, here⟩⟩
  · rw [type]
    exact toDtype_objects
  · exact congrArg (·.getD .none) (fields "fortran_order")
  · exact congrArg (·.getD .none) (fields "data")

theorem admits_line {size : Nat} (small : size < 2 ^ 31) :
    Dtype.object.Admits [size] := by
  have single : spreadOf [] = 1 := rfl
  refine Dtype.admits_object (by decide : 1 ≤ 64) ?_
  rw [spreadOf_cons, single]
  split
  · decide
  · omega

theorem get_withItems_place {place : Address}
    (here : heap.get place = .record (newInstance recordType .ndarray)) :
    (withItems heap place values).get place =
      .record (filledRecord values.length heap.objects.size) :=
  Heap.Extends.get_set (Heap.Extends.alloc heap _)
    (Heap.lt_size_of_get here (by simp))

theorem get_withItems_list (values : List Value) {place : Address}
    (here : heap.get place = .record (newInstance recordType .ndarray)) :
    (withItems heap place values).get heap.objects.size =
      .list values.toArray := by
  have old : place < heap.objects.size := Heap.lt_size_of_get here (by simp)
  rw [withItems, Heap.get_set_of_ne _ (Nat.ne_of_gt old), Heap.get_alloc_self]

theorem rebuilds_withItems {place : Address}
    (small : values.length < 2 ^ 31)
    (here : heap.get place = .record (newInstance recordType .ndarray)) :
    Payload.Rebuilds (withItems heap place values) (.object place)
      (.ofItems values) (withItems heap place values) := by
  have keeps := keepsItems_filledRecord
    (get_withItems_list values here)
  have count : values.length = [values.length].prod := (Nat.mul_one _).symm
  refine ⟨place, _, ?_, rfl, keeps.arrayOfRecord_eq (admits_line small) count⟩
  simp only [Heap.record?, get_withItems_place here]

/-! ## Arrays -/

/-- The heap in which the pickle inside starts. -/
def insideHeap (heap : Heap) (size : Nat) : Heap :=
  (withPlaceholder heap size).set (placeAfter heap)
    (.record (placeholder size))

/-- The place of the record of the array. -/
def recordPlace (heap : Heap) (size : Nat) : Address :=
  placeAfter (insideHeap heap size)

/-- What a machine works on before the items are made. -/
def beforeItems (heap : Heap) (size : Nat) : Contents :=
  ⟨[], [partsBelow size, [.object (recordPlace heap size)]], [],
    withRecord (insideHeap heap size)⟩

theorem extends_insideHeap (heap : Heap) (size : Nat) :
    Heap.Extends [] heap (insideHeap heap size) := by
  have made : Heap.Extends [] heap (withPlaceholder heap size) :=
    (extends_withInstance heap _ _).trans (Heap.Extends.alloc _ _) (by simp)
  refine made.trans (.set _ _ _) fun address member => .inr ?_
  rw [List.mem_singleton.mp member]
  exact Nat.le_succ _

theorem extends_beforeItems (heap : Heap) (size : Nat) :
    Heap.Extends [] heap (beforeItems heap size).heap :=
  (extends_insideHeap heap size).trans (extends_withInstance _ _ _) (by simp)

variable {code : Bytes} {middle : Heap}

theorem extends_withItems {place : Address} :
    Heap.Extends [place] middle (withItems middle place values) :=
  Heap.Extends.set_trans (.alloc middle _) (.refl _ _)

/-- The items are put into an array, which alone is left of all that is made
for it. -/
theorem executes_arrayCode (binds : options.registry.BindsArrays)
    (small : values.length < 2 ^ 31)
    (items : Executes (nestedOptions options) code
      (beforeItems heap values.length)
      { beforeItems heap values.length with
        stack := values.reverse ++ [], heap := middle })
    (extends_ : Heap.Extends [] (beforeItems heap values.length).heap middle)
    (stack : List Value) (marks : List (List Value)) :
    ∃ value after,
      Executes options (arrayCode values.length code)
          ⟨stack, marks, [], heap⟩ ⟨value :: stack, marks, [], after⟩ ∧
        after.array? value = some (.ofItems values) ∧
        Heap.Extends [] heap after ∧ middle.KeepsArrays after := by
  have here : middle.get (recordPlace heap values.length) =
      .record (newInstance recordType .ndarray) :=
    extends_.get (get_withInstance _ _ _) (by simp)
  have bindsInside : (nestedOptions options).registry.BindsArrays := binds
  have passage : Executes (nestedOptions options)
      (headCode values.length ++ (code ++ tailCode))
      ⟨[], [], [], insideHeap heap values.length⟩
      ⟨[.object (recordPlace heap values.length)], [], [],
        withItems middle (recordPlace heap values.length) values⟩ :=
    (executes_headCode bindsInside small).append
      (items.append (executes_tailCode here))
  have filled : Heap.Extends [recordPlace heap values.length] middle
      ((withItems middle (recordPlace heap values.length) values).alloc
        (.array (.ofItems values))).2 :=
    extends_withItems.trans (.alloc _ _) (by simp)
  have above : heap.objects.size ≤ recordPlace heap values.length :=
    Nat.le_succ_of_le (extends_insideHeap heap values.length).size
  refine ⟨_, _, (executes_placeholderCode binds small).append
    (executes_inside (awaitsObjects_withPlaceholder heap values.length)
      passage (rebuilds_withItems small here)), Payload.array?_alloc _ _, ?_,
    ?_⟩
  · refine ((extends_beforeItems heap _).trans extends_ (by simp)).trans filled
      fun address member => .inr ?_
    rw [List.mem_singleton.mp member]
    exact above
  · refine filled.keepsArrays fun address member array isArray => ?_
    rw [List.mem_singleton.mp member, here] at isArray
    cases isArray

/-- What breaks the items off corrupts the payload. -/
theorem breaks_arrayCode (binds : options.registry.BindsArrays) {size : Nat}
    (small : size < 2 ^ 31) {kind : FailureClass}
    (items : Breaks (nestedOptions options) code (beforeItems heap size)
      kind) :
    Breaks options (arrayCode size code) ⟨stack, marks, memo, heap⟩
      .corruptPayload := by
  have bindsInside : (nestedOptions options).registry.BindsArrays := binds
  have inside : Breaks (nestedOptions options)
      (headCode size ++ (code ++ tailCode))
      ⟨[], [], [], insideHeap heap size⟩ kind :=
    (executes_headCode bindsInside small).breaks (items.append tailCode)
  exact (executes_placeholderCode binds small).breaks
    (breaks_inside (awaitsObjects_withPlaceholder heap size) inside)

end Objects

end PickleGraph
