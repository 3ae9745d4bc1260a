import Mathlib
import PickleGraph.Proofs.Array.Header
import PickleGraph.Proofs.Construction.State
import PickleGraph.Proofs.Machine.Steps
import PickleGraph.Proofs.Registry.Governed

/-!
# Layouts of arrays

The elements of an array come with a header, with a state that declares them,
after padding, in a file of their own, in a buffer that is lent, or in the state
of a record. All of these layouts give one and the same array.
-/

namespace PickleGraph

open Actions

/-! ## Instances of catalogued types -/

/-- A catalogued type of this name has this strategy. -/
def Catalog.Names (name : String) (strategy : Strategy) : Prop :=
  ∃ entry ∈ types, entry.name = name ∧ entry.strategy = strategy

namespace Catalog

theorem Names.mem {name : String} {strategy : Strategy}
    (names : Names name strategy) :
    strategy ∈ (types.filter (·.name == name)).map (·.strategy) := by
  obtain ⟨entry, isEntry, isName, rfl⟩ := names
  exact List.mem_map_of_mem
    (List.mem_filter.mpr ⟨isEntry, beq_iff_eq.mpr isName⟩)

theorem Names.inline {strategy : Strategy}
    (names : Names "NumpyArrayWrapper" strategy) :
    strategy = .array "numpy.ndarray" .inline := by
  have found : (types.filter (·.name == "NumpyArrayWrapper")).map
      (·.strategy) = [.array "numpy.ndarray" .inline] := by
    decide +kernel
  exact List.mem_singleton.mp (found ▸ names.mem)

theorem Names.sibling {strategy : Strategy}
    (names : Names "NDArrayWrapper" strategy) :
    strategy = .array "numpy.ndarray" .sibling := by
  have found : (types.filter (·.name == "NDArrayWrapper")).map
      (·.strategy) = [.array "numpy.ndarray" .sibling] := by
    decide +kernel
  exact List.mem_singleton.mp (found ▸ names.mem)

theorem Names.fromBuffer {strategy : Strategy}
    (names : Names "_frombuffer" strategy) :
    strategy = .callable "numpy.ndarray" .fromBuffer := by
  have found : (types.filter (·.name == "_frombuffer")).map
      (·.strategy) = [.callable "numpy.ndarray" .fromBuffer] := by
    decide +kernel
  exact List.mem_singleton.mp (found ▸ names.mem)

theorem Names.reconstruct {strategy : Strategy}
    (names : Names "_reconstruct" strategy) : strategy = arrayStrategy := by
  have found : (types.filter (·.name == "_reconstruct")).map
      (·.strategy) = [arrayStrategy] := by
    decide +kernel
  exact List.mem_singleton.mp (found ▸ names.mem)

theorem names_of_any {name : String} {strategy : Strategy}
    (found : types.any (fun entry =>
      entry.name == name && entry.strategy == strategy) = true) :
    Names name strategy := by
  obtain ⟨entry, isEntry, same⟩ := List.any_eq_true.mp found
  obtain ⟨isName, isStrategy⟩ := (Bool.and_eq_true _ _).mp same
  exact ⟨entry, isEntry, beq_iff_eq.mp isName, beq_iff_eq.mp isStrategy⟩

end Catalog

/-- The record of a new instance of a catalogued type. -/
def Record.IsNew (name : String) (record : Record) : Prop :=
  ∃ (reference : TypeRef) (call : Call) (before made : Heap) (value : Value)
    (address : Address),
    Catalog.Names name reference.strategy ∧
      reference.instantiate call before = .ok (value, made) ∧
      made.record? value = some (address, record)

theorem Heap.record?_alloc (heap : Heap) (record : Record) :
    (heap.alloc (.record record)).2.record?
        (heap.alloc (.record record)).1 =
      some (heap.objects.size, record) := by
  have here : (heap.alloc (.record record)).2.get heap.objects.size =
      .record record :=
    Heap.get_alloc_self heap _
  simp only [Heap.record?, Heap.alloc] at here ⊢
  rw [here]

theorem TypeRef.of_instantiate {reference : TypeRef} {call : Call}
    {before made : Heap} {value : Value} {address : Address}
    {record : Record} {kind : RecordKind}
    (isKind : reference.strategy.recordKind? = some kind)
    (success : reference.instantiate call before = .ok (value, made))
    (found : made.record? value = some (address, record)) :
    record.strategy = reference.strategy ∧ record.kind = kind := by
  rw [TypeRef.instantiate_of_kind isKind] at success
  cases success
  cases found.symm.trans (Heap.record?_alloc before _)
  exact ⟨rfl, rfl⟩

namespace Execution

variable {type : Dtype} {shape : List Nat} {firstFastest : Bool}
variable {data : Bytes}

/-! ## Giving a state -/

/-- A state is about to be given to a new instance of a catalogued type, which
makes it another record in another heap. -/
def Awaits (machine : Machine) (name : String) (state : Value)
    (record : Record) (heap : Heap) : Prop :=
  ∃ address rest earlier,
    machine.stack = state :: .object address :: rest ∧
      machine.heap.get address = .record earlier ∧
      earlier.IsNew name ∧
      earlier.applyState machine.heap state = .ok record ∧
      heap = machine.heap.set address (.record record)

/-- Giving the state takes the bytes and puts the array in the place of the
state and of the record. -/
def Fills (options : Options) (nested : Decoding Value) (machine : Machine)
    (bytes : Bytes) (array : NdArray) : Prop :=
  ∀ more, machine.source.reader.Offers (bytes ++ more) →
    ∃ value after, giveState options nested machine = .ok () after ∧
      after.source.reader.Offers more ∧
      after.stack = value :: machine.stack.drop 2 ∧
      after.heap.array? value = some array

/-- A placeholder is still one when it has got its state. -/
theorem Awaits.strategy_eq {machine : Machine} {name : String}
    {state : Value} {record : Record} {heap : Heap} {strategy : Strategy}
    {kind : RecordKind}
    (awaits : Awaits machine name state record heap)
    (only : ∀ other, Catalog.Names name other → other = strategy)
    (isKind : strategy.recordKind? = some kind) :
    record.strategy = strategy ∧ record.kind = kind := by
  obtain ⟨address, rest, earlier, _, _, isNew, applied, _⟩ := awaits
  obtain ⟨reference, call, before, made, value, place, names, success,
    found⟩ := isNew
  have same := only reference.strategy names
  have asMade := TypeRef.of_instantiate (same ▸ isKind) success found
  have refills := Record.refills_applyState applied
  rw [refills]
  exact ⟨asMade.1.trans same, asMade.2⟩

theorem Awaits.applyToTop_eq {machine : Machine} {name : String}
    {state : Value} {record : Record} {heap : Heap}
    (awaits : Awaits machine name state record heap) :
    ∃ address rest middle,
      applyToTop machine = .ok (address, record) middle ∧
        middle.source = ⟨machine.source.reader, heap⟩ ∧
        middle.stack = .object address :: rest ∧
        machine.stack.drop 1 = .object address :: rest := by
  obtain ⟨address, rest, earlier, stack, here, _, applied, rfl⟩ := awaits
  refine ⟨address, rest, _, applyToTop_of_eq stack here applied, rfl, rfl, ?_⟩
  rw [stack]
  rfl

theorem Awaits.fills {options : Options} {nested : Decoding Value}
    {machine : Machine} {name : String} {state : Value} {record : Record}
    {heap : Heap} {target : Text} {layout : ArrayLayout} {bytes : Bytes}
    {array : NdArray}
    (awaits : Awaits machine name state record heap)
    (strategy : ∀ strategy, Catalog.Names name strategy →
      strategy = .array target layout)
    (gives : Payload.Gives (materialize options nested layout record) bytes
      heap array) :
    Fills options nested machine bytes array := by
  have isArray : record.strategy = .array target layout :=
    (awaits.strategy_eq strategy rfl).1
  obtain ⟨address, rest, middle, given, source, stack, below⟩ :=
    awaits.applyToTop_eq
  obtain ⟨value, after, draws, isFound⟩ := gives
  intro more offers
  obtain ⟨reader, offersMore, done⟩ := draws more _ offers
  rw [← source] at done
  have filled := fillPlaceholder_of_eq address isArray stack done
  have finished := (congrFun (giveState_eq options nested) machine).trans
    ((bind_of_eq_ok given).trans filled)
  refine ⟨value, _, finished, offersMore, ?_, isFound⟩
  rw [← List.drop_drop (i := 1) (j := 1), below]
  rfl

/-- A state of an array gives its record the fields of the array. -/
theorem Awaits.keeps {machine : Machine} {record : Record} {heap : Heap}
    {version typeValue shapeValue : Value}
    (awaits : Awaits machine "_reconstruct"
      (.tuple [version, shapeValue, typeValue, .bool firstFastest,
        .bytes data]) record heap)
    (isType : heap.toDtype typeValue = .ok type)
    (isShape : Payload.shapeOf? heap shapeValue = some shape) :
    record.Keeps heap type shape firstFastest data := by
  have strategy := (awaits.strategy_eq
    (fun _ names => names.reconstruct) rfl).1
  obtain ⟨address, rest, earlier, stack, here, _, applied, _⟩ := awaits
  have refills := Record.refills_applyState applied
  have earlierStrategy : earlier.strategy = Catalog.arrayStrategy := by
    rw [refills] at strategy
    exact strategy
  unfold Record.applyState at applied
  rw [earlierStrategy] at applied
  cases applied
  exact earlier.keeps_fillPositions isType isShape

/-! ## Layouts -/

/-- All layouts of the elements of an array give this array. -/
structure AgreesOn (options : Options) (nested : Decoding Value)
    (type : Dtype) (shape : List Nat) (firstFastest : Bool) (data : Bytes)
    (array : NdArray) : Prop where
  /-- A placeholder that gets no type or no shape is followed by a header. -/
  headed : ∀ machine state record heap header after,
    Awaits machine "NumpyArrayWrapper" state record heap →
      record.field? "dtype" = none ∨ record.field? "shape" = none →
        Payload.IsHeader options.names header heap ⟨type, shape, firstFastest⟩
            after →
          Fills options nested machine (header ++ data) array
  /-- A placeholder that gets both may be followed by padding. -/
  declared : ∀ machine state record heap padding,
    Awaits machine "NumpyArrayWrapper" state record heap →
      Payload.Declares record heap ⟨type, shape, firstFastest⟩ →
        Payload.IsPadding record padding →
          Fills options nested machine (padding ++ data) array
  /-- A placeholder that names a file stands for the array in the file. -/
  apart : ∀ machine state record heap header after siblings fileName reader
      more,
    Awaits machine "NDArrayWrapper" state record heap →
      options.siblings? = some siblings →
        (record.field "filename").text? = some fileName →
          siblings fileName = .ok reader →
            reader.Offers (header ++ data ++ more) →
              Payload.IsHeader options.names header heap
                  ⟨type, shape, firstFastest⟩ after →
                Fills options nested machine [] array
  /-- A buffer is lent to a call. -/
  lent : ∀ (reference : TypeRef) (heap : Heap) typeValue shapeValue,
    Catalog.Names "_frombuffer" reference.strategy →
      heap.toDtype typeValue = .ok type →
        Payload.shapeOf? heap shapeValue = some shape →
          ∃ value after,
            reference.instantiate
                (Call.ofArgs [.bytes data, typeValue, shapeValue,
                  orderName firstFastest]) heap = .ok (value, after) ∧
              after.array? value = some array
  /-- The state of a record holds everything. -/
  rebuilt : ∀ machine record heap version typeValue shapeValue,
    Awaits machine "_reconstruct"
        (.tuple [version, shapeValue, typeValue, .bool firstFastest,
          .bytes data]) record heap →
      heap.toDtype typeValue = .ok type →
        Payload.shapeOf? heap shapeValue = some shape →
          ∃ last value after,
            giveState options nested machine = .ok () last ∧
              last.stack = machine.stack.drop 1 ∧ last.heap = heap ∧
              heap.rebuild record = .ok (value, after) ∧
              after.array? value = some array

theorem agreesOn_ofListing (options : Options) (nested : Decoding Value)
    (isRaw : type.IsRaw) (admits : type.Admits shape)
    (length : data.length = shape.prod * type.itemSize) :
    AgreesOn options nested type shape firstFastest data
      (NdArray.ofListing type shape firstFastest data) where
  headed := by
    intro machine state record heap header after awaits isEmpty isHeader
    exact awaits.fills (fun _ names => names.inline)
      (Payload.gives_headed isRaw admits length isHeader isEmpty nested)
  declared := by
    intro machine state record heap padding awaits declares isPadding
    exact awaits.fills (fun _ names => names.inline)
      (Payload.gives_declared isRaw admits length declares isPadding nested)
  apart := by
    intro machine state record heap header after siblings fileName reader more
      awaits isStored isNamed isOpen offers isHeader
    refine awaits.fills (fun _ names => names.sibling) ?_
    unfold materialize
    rw [isStored]
    exact Payload.gives_sibling isRaw admits length isHeader isNamed isOpen
      offers
  lent := by
    intro reference heap typeValue shapeValue names isType isShape
    refine ⟨_, _, ?_, Payload.array?_alloc heap _⟩
    unfold TypeRef.instantiate TypeRef.instantiateWith
    rw [names.fromBuffer]
    exact except_bind_eq_ok_iff.mpr
      ⟨(), rfl, arrayOfBuffer_eq isRaw admits length isType isShape⟩
  rebuilt := by
    intro machine record heap version typeValue shapeValue awaits isType
      isShape
    obtain ⟨address, rest, middle, given, source, stack, below⟩ :=
      awaits.applyToTop_eq
    obtain ⟨strategy, isArray⟩ :=
      awaits.strategy_eq (fun _ names => names.reconstruct) rfl
    have keeps := awaits.keeps isType isShape
    refine ⟨middle, _, _, ?_, stack.trans below.symm, ?_,
      keeps.rebuild_eq isArray isRaw admits length,
      Payload.array?_alloc heap _⟩
    · rw [giveState_eq, bind_of_eq_ok given]
      unfold fillPlaceholder
      dsimp only
      rw [strategy]
      rfl
    · exact congrArg Source.heap source

/-- The layouts agree: there is one array of the type and the shape whose
elements stand in the data in the order, and every layout gives it. -/
theorem layouts_agree (options : Options) (nested : Decoding Value)
    (type : Dtype) (shape : List Nat) (firstFastest : Bool) (data : Bytes)
    (isRaw : type.IsRaw) (admits : type.Admits shape)
    (length : data.length = shape.prod * type.itemSize) :
    ∃ array : NdArray,
      array.Lists type shape firstFastest data ∧
        (∀ other : NdArray, other.Lists type shape firstFastest data →
          other = array) ∧
        AgreesOn options nested type shape firstFastest data array := by
  have lists := NdArray.lists_ofListing firstFastest length
  exact ⟨_, lists, fun other others => others.unique lists,
    agreesOn_ofListing options nested isRaw admits length⟩

/-! ## A grid of words -/

def words : Dtype :=
  .element .signed 2 false none

def gridData : Bytes :=
  [0, 1, 2, 3, 4, 5, 6, 7, 8, 9, 10, 11]

def gridText : String :=
  "\x7b'descr': '<i2', 'fortran_order': True, 'shape': (2, 3), \x7d\n"

def gridHeader : Bytes :=
  Payload.magic ++ ([1, 0] ++
    (Bytes.ofNatLE 2 (Bytes.ofString gridText).length ++
      Bytes.ofString gridText))

theorem parse?_gridText (names : CharacterNames) :
    Literal.parse? names (Text.ofLatin1 (Bytes.ofString gridText)) =
      some (Payload.headerLiteral (Text.ofString "<i2") [2, 3] true) := by
  cbv

theorem isHeader_gridHeader (names : CharacterNames) (heap : Heap) :
    Payload.IsHeader names gridHeader heap ⟨words, [2, 3], true⟩
      (heap.alloc (.dict false
        (Payload.headerEntries (Text.ofString "<i2") [2, 3] true))).2 :=
  ⟨1, 0, 2, Bytes.ofString gridText, _, rfl, by decide +kernel, rfl,
    Payload.denotes_of_parse (parse?_gridText names) rfl, rfl⟩

def inlineType : TypeRef :=
  ⟨"joblib.numpy_pickle", "NumpyArrayWrapper",
    .array "numpy.ndarray" .inline⟩

def siblingType : TypeRef :=
  ⟨"joblib.numpy_pickle", "NDArrayWrapper",
    .array "numpy.ndarray" .sibling⟩

def bufferType : TypeRef :=
  ⟨"numpy.core.numeric", "_frombuffer",
    .callable "numpy.ndarray" .fromBuffer⟩

def arrayType : TypeRef :=
  ⟨"numpy.core.multiarray", "_reconstruct", Catalog.arrayStrategy⟩

theorem names_inlineType :
    Catalog.Names "NumpyArrayWrapper" inlineType.strategy :=
  Catalog.names_of_any (by decide +kernel)

theorem names_siblingType :
    Catalog.Names "NDArrayWrapper" siblingType.strategy :=
  Catalog.names_of_any (by decide +kernel)

theorem names_bufferType :
    Catalog.Names "_frombuffer" bufferType.strategy :=
  Catalog.names_of_any (by decide +kernel)

theorem names_arrayType :
    Catalog.Names "_reconstruct" arrayType.strategy :=
  Catalog.names_of_any (by decide +kernel)

/-- A machine that is about to give a new placeholder a mapping as its state. -/
def placeholder (reference : TypeRef) (fields : List (String × Value))
    (bytes : Bytes) : Machine :=
  let made := reference.newRecord .plain (.ofArgs []) .empty
  let state := made.2.alloc
    (.dict false (Entries.named fields))
  { Machine.ofReader (.ofBytes bytes) state.2 false with
    stack := [state.1, made.1] }

theorem awaits_placeholder {name : String} {reference : TypeRef}
    {target : Text} {layout : ArrayLayout}
    (names : Catalog.Names name reference.strategy)
    (strategy : reference.strategy = .array target layout)
    (fields : List (String × Value)) (bytes : Bytes) :
    ∃ record heap,
      Awaits (placeholder reference fields bytes) name (.object 1) record
        heap ∧
      ∀ name, record.field? name = fields.reverse.lookup name := by
  obtain ⟨fresh, isMade, same, noFields⟩ : ∃ fresh : Record,
      reference.newRecord .plain (.ofArgs []) .empty =
          Heap.empty.alloc (.record fresh) ∧
        fresh.strategy = reference.strategy ∧ fresh.fields = [] := by
    refine ⟨_, rfl, rfl, ?_⟩
    rw [strategy]
    rfl
  have isNew : fresh.IsNew name := by
    refine ⟨reference, .ofArgs [], .empty, _, _, _, names, ?_,
      Heap.record?_alloc .empty fresh⟩
    unfold TypeRef.instantiate TypeRef.instantiateWith
    rw [strategy]
    exact congrArg Except.ok isMade
  let entries := Entries.named fields
  have applied : ∀ heap : Heap, heap.get 1 = .dict false entries →
      fresh.applyState heap (.object 1) = .ok (fresh.update entries) := by
    intro heap here
    unfold Record.applyState
    rw [same, strategy]
    exact Record.mergeState_dict here
  refine ⟨fresh.update entries, _, ⟨0, [], fresh, ?_, ?_, isNew,
    applied _ ?_, rfl⟩, ?_⟩
  · simp only [placeholder, isMade]
    rfl
  · simp only [placeholder, isMade]
    rfl
  · simp only [placeholder, isMade]
    rfl
  · intro name
    rw [Record.field?, Record.update, noFields,
      Entries.findText?_merge_named, ]
    exact Option.or_none

/-- The state of a placeholder with a type, a shape, an order and padding. -/
def gridFields : List (String × Value) :=
  [("dtype", .str (Text.ofString "<i2")), ("shape", .tuple [.int 2, .int 3]),
    ("order", orderName true), ("numpy_array_alignment_bytes", .int 16)]

def arrayState : Value :=
  .tuple
    [.int 1, .tuple [.int 2, .int 3], .str (Text.ofString "<i2"), .bool true,
      .bytes gridData]

/-- A machine that is about to give the record of an array its state. -/
def arrayRecord : Machine :=
  let made := arrayType.newRecord .ndarray
    (.ofArgs [.none, .tuple [.int 0], .bytes [0x62]]) .empty
  { Machine.ofReader (.ofBytes []) made.2 false with
    stack := [arrayState, made.1] }

/-- A directory with one file. -/
def gridOptions : Options :=
  { Options.standard with
    siblings? := some fun _ => .ok (.ofBytes (gridHeader ++ gridData)) }

/-- Giving the state on top of the stack leaves the array in its place. -/
def LeavesArray (machine : Machine) (array : NdArray) : Prop :=
  ∃ value after,
    giveState gridOptions (nestedPickle gridOptions) machine = .ok () after ∧
      after.stack = [value] ∧ after.heap.array? value = some array

theorem leavesArray_placeholder {reference : TypeRef}
    {fields : List (String × Value)} {bytes : Bytes} {array : NdArray}
    (fills : Fills gridOptions (nestedPickle gridOptions)
      (placeholder reference fields bytes) bytes array) :
    LeavesArray (placeholder reference fields bytes) array := by
  have offers : Reader.Offers (bytes ++ [])
      (placeholder reference fields bytes).source.reader := by
    rw [List.append_nil]
    exact List.prefix_refl bytes
  obtain ⟨value, after, given, _, stack, isArray⟩ := fills [] offers
  exact ⟨value, after, given, stack, isArray⟩

theorem layouts_agree_grid :
    words.IsRaw ∧ words.Admits [2, 3] ∧
      gridData.length = [2, 3].prod * words.itemSize ∧
      ∃ array : NdArray, array.Lists words [2, 3] true gridData ∧
        LeavesArray (placeholder inlineType [] (gridHeader ++ gridData)) array ∧
        LeavesArray (placeholder inlineType gridFields
          ([2, 0xFF, 0xFF] ++ gridData)) array ∧
        LeavesArray (placeholder siblingType
          [("filename", .str [])] []) array ∧
        (∃ value after,
          bufferType.instantiate
              (.ofArgs [.bytes gridData, .str (Text.ofString "<i2"),
                .tuple [.int 2, .int 3], orderName true]) .empty =
            .ok (value, after) ∧
          after.array? value = some array) ∧
        ∃ last record value after,
          giveState gridOptions (nestedPickle gridOptions) arrayRecord =
              .ok () last ∧
            last.heap.get 0 = .record record ∧
            last.heap.rebuild record = .ok (value, after) ∧
            after.array? value = some array := by
  have isRaw : words.IsRaw := ⟨rfl, fun _ _ impossible => (by cases impossible),
    by decide⟩
  have admits : words.Admits [2, 3] := ⟨by decide, by decide⟩
  have length : gridData.length = [2, 3].prod * words.itemSize := rfl
  obtain ⟨array, lists, _, agrees⟩ := layouts_agree gridOptions
    (nestedPickle gridOptions) words [2, 3] true gridData isRaw admits length
  refine ⟨isRaw, admits, length, array, lists, ?_, ?_, ?_, ?_, ?_⟩
  · obtain ⟨record, heap, awaits, fields⟩ := awaits_placeholder
      names_inlineType rfl [] (gridHeader ++ gridData)
    have noType : record.field? "dtype" = none := fields "dtype"
    exact leavesArray_placeholder (agrees.headed _ _ record heap _ _ awaits
      (.inl noType) (isHeader_gridHeader _ heap))
  · obtain ⟨record, heap, awaits, fields⟩ := awaits_placeholder
      names_inlineType rfl gridFields ([2, 0xFF, 0xFF] ++ gridData)
    have declares : Payload.Declares record heap ⟨words, [2, 3], true⟩ := by
      refine ⟨⟨_, fields "dtype", ?_⟩, ⟨_, fields "shape", rfl⟩, ?_⟩
      · exact payloadDtype_eq_ok (Heap.toDtype_str rfl)
      · rw [fields]
        rfl
    have isPadding : Payload.IsPadding record [2, 0xFF, 0xFF] := by
      refine .inr ⟨?_, [0xFF, 0xFF], by decide, rfl⟩
      rw [Record.field, fields]
      intro impossible
      cases impossible
    exact leavesArray_placeholder
      (agrees.declared _ _ record heap _ awaits declares isPadding)
  · obtain ⟨record, heap, awaits, fields⟩ := awaits_placeholder
      names_siblingType rfl [("filename", .str [])] []
    have isNamed : (record.field "filename").text? = some [] := by
      rw [Record.field, fields]
      rfl
    have offers : (Reader.ofBytes (gridHeader ++ gridData)).Offers
        (gridHeader ++ gridData ++ []) := by
      rw [List.append_nil]
      exact List.prefix_refl _
    exact leavesArray_placeholder (agrees.apart _ _ record heap _ _ _ _ _ []
      awaits rfl isNamed rfl offers (isHeader_gridHeader _ heap))
  · exact agrees.lent bufferType .empty _ _ names_bufferType
      (Heap.toDtype_str rfl) rfl
  · obtain ⟨record, heap, awaits, here⟩ : ∃ record heap,
        Awaits arrayRecord "_reconstruct" arrayState record heap ∧
          heap.get 0 = .record record :=
      ⟨_, _, ⟨0, [], _, rfl, rfl,
        ⟨arrayType, _, .empty, _, _, _, names_arrayType, rfl, rfl⟩, rfl, rfl⟩,
        rfl⟩
    obtain ⟨last, value, after, given, _, isHeap, rebuilt, isArray⟩ :=
      agrees.rebuilt arrayRecord record heap _ _ _ awaits
        (Heap.toDtype_str rfl) rfl
    rw [← isHeap] at here rebuilt
    exact ⟨last, record, value, after, given, here, rebuilt, isArray⟩

end Execution

end PickleGraph
