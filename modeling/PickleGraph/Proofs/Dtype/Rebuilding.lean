import PickleGraph.Proofs.Dtype.State
import PickleGraph.Proofs.Heap.Nesting

/-!
# Types rebuilt from their states

The code of elements gives their kind and, unless they may have any size, their
size. The size of the others, the unit of times and the byte order come from the
state, the order at last. Subarrays and structures are rebuilt from what their
parts are rebuilt to, however deep the records are inside each other.
-/

namespace PickleGraph

open Actions

/-- The text of a unit; empty where there is none. -/
def Dtype.unitText : Option TimeUnit → Text
  | none => []
  | some unit => Text.ofCharacters (unitBody unit)

namespace Heap

variable {heap : Heap} {record : Record}

/-! ## Times -/

theorem quote_int {count : Int} (positive : 0 < count)
    (small : count ≤ Dtype.maxInt) :
    heap.quote (.int count) = .ok (Text.ofInt count) := by
  have few : count.natAbs < 10 ^ Integer.maxDecimalDigits := by
    have fits : count.natAbs < 10 ^ 10 := by
      unfold Dtype.maxInt at small
      omega
    exact Nat.lt_of_lt_of_le fits
      (Nat.pow_le_pow_right (by decide) (by decide))
  have showable : heap.isShowable (.int count) = true := by
    unfold Heap.isShowable Value.isShowable
    exact decide_eq_true few
  unfold Heap.quote
  rw [showable]
  rfl

theorem timeUnit_of_metadata (heap : Heap) {others : Value} {name : String}
    {count : Int} (isName : name ∈ Dtype.genericUnit :: Dtype.unitNames)
    (holds : record.field "metadata" = .tuple [others,
      .tuple [.bytes (Bytes.ofString name), .int count, .int 1, .int 1]]) :
    heap.timeUnit record =
      if name = Dtype.genericUnit then .ok (.str [])
      else if count = 1 then .ok (.str (Text.ofString name))
      else do
        let digits ← heap.quote (.int count)
        return .str (digits ++ Text.ofString name) := by
  have ascii : ∀ name ∈ Dtype.genericUnit :: Dtype.unitNames,
      (Bytes.ofString name).all (· < 0x80) = true ∧
        Text.ofLatin1 (Bytes.ofString name) = Text.ofString name := by
    decide
  obtain ⟨isAscii, sameText⟩ := ascii name isName
  have isGeneric :
      (Value.str (Text.ofString name)).matchesKey
          (.str (Text.ofString Dtype.genericUnit)) = true ↔
        name = Dtype.genericUnit := by
    rw [Value.str_matchesKey_str_iff]
    exact Text.ofString_inj
  have isOne : (Value.int count).matchesKey (.int 1) = true ↔ count = 1 := by
    show (count == 1 || false) = true ↔ _
    rw [Bool.or_false, beq_iff_eq]
  have found : (do heap.firstTwo (← heap.item (.tuple [others,
      .tuple [.bytes (Bytes.ofString name), .int count, .int 1, .int 1]])
        (.int 1)) : Except Refusal (Value × Value)) =
      .ok (.bytes (Bytes.ofString name), .int count) :=
    rfl
  have plain : (Value.bytes (Bytes.ofString name)).plain =
      .bytes (Bytes.ofString name) := rfl
  unfold Heap.timeUnit
  rw [holds]
  dsimp only
  rw [found]
  dsimp only
  rw [plain]
  dsimp only
  rw [if_pos isAscii, sameText]
  show (if (Value.str (Text.ofString name)).matchesKey _ = true then
    (pure (Value.str []) : Except Failure Value) else _) = _
  simp only [isGeneric, isOne]
  rfl

/-- The unit is found in the metadata, with its multiple unless it is one. -/
theorem timeUnit_eq {others : Value} {unit : Option TimeUnit}
    (isValid : ∀ known, unit = some known → known.IsValid)
    (holds : record.field "metadata" =
      .tuple [others, .tuple (Dtype.storedUnit unit)]) :
    heap.timeUnit record = .ok (.str (Dtype.unitText unit)) := by
  cases unit with
  | none =>
      have read := timeUnit_of_metadata heap List.mem_cons_self holds
      rw [if_pos rfl] at read
      exact read
  | some unit =>
      have isValid := isValid unit rfl
      have isName := Dtype.isUnitName_of_mem isValid.isKnown
      have read := timeUnit_of_metadata heap
        (List.mem_cons_of_mem _ isValid.isKnown) holds
      rw [if_neg isName.notGeneric] at read
      refine read.trans ?_
      unfold Dtype.unitText Dtype.unitBody
      dsimp only
      by_cases isOne : unit.count = 1
      · rw [if_pos isOne, if_pos isOne]
        rfl
      · have count : ((unit.count.toNat : Nat) : Int) = unit.count :=
          Int.toNat_of_nonneg (Int.le_of_lt isValid.positive)
        have digits := Text.ofInt_natCast unit.count.toNat
        rw [count] at digits
        rw [if_neg isOne, if_neg isOne,
          quote_int isValid.positive isValid.small, digits,
          Text.ofCharacters, Text.ofCharacters, List.map_append]
        rfl

theorem timeType_eq {kind : ElementKind} {others : Value}
    {unit : Option TimeUnit}
    (isTime : kind = .timedelta ∨ kind = .datetime)
    (isValid : ∀ known, unit = some known → known.IsValid)
    (holds : record.field "metadata" =
      .tuple [others, .tuple (Dtype.storedUnit unit)]) :
    heap.timeType kind record = .ok (.element kind 8 false unit) := by
  refine except_bind_eq_ok_iff.mpr ⟨_, timeUnit_eq isValid holds, ?_⟩
  cases unit with
  | none =>
      rcases isTime with rfl | rfl <;> rfl
  | some unit =>
      have isValid := isValid unit rfl
      have isTrue : heap.isTrue (.str (Dtype.unitText (some unit))) =
          .ok true := by
        have nonempty : (Dtype.unitText (some unit)).isEmpty = false := by
          refine List.isEmpty_eq_false_iff.mpr fun isEmpty => ?_
          exact Dtype.unitBody_ne_nil isValid (List.map_eq_nil_iff.mp isEmpty)
        show Except.ok (!(Dtype.unitText (some unit)).isEmpty) = _
        rw [nonempty]
        rfl
      refine except_bind_eq_ok_iff.mpr ⟨true, congrArg liftM isTrue, ?_⟩
      have body : Dtype.unitText (some unit) =
          Text.ofCharacters (Dtype.unitBody unit) := rfl
      show (liftM (Dtype.ofText _) : Except Failure Dtype) = _
      rw [body, Dtype.ofText_time isTime isValid]
      rfl

/-! ## Elements -/

section Elements

variable {kind : ElementKind} {size : Nat} {bigEndian : Bool}
  {unit : Option TimeUnit} {subarray names fields : Value}
  (isValid : (Dtype.element kind size bigEndian unit).IsValid)
  (holds : record.HoldsType (.element kind size bigEndian unit) subarray names
    fields)

include isValid holds

/-- Times get their unit, and the others have none. -/
theorem timed_eq (finish : Dtype → Except Failure Dtype) :
    (if kind = .timedelta ∨ kind = .datetime then
      heap.timeType kind record >>= finish
    else pure (Dtype.element kind size false none) >>= finish) =
      finish (.element kind size false unit) := by
  by_cases isTime : kind = .timedelta ∨ kind = .datetime
  · have sized : size = 8 := by
      have admits := isValid.admits
      rcases isTime with rfl | rfl <;> exact admits
    have storesUnit := holds.unit
    obtain ⟨others, metadata⟩ : ∃ others, record.field? "metadata" =
        some (.tuple [others, .tuple (Dtype.storedUnit unit)]) := by
      rcases isTime with rfl | rfl <;> exact storesUnit
    have stored : record.field "metadata" =
        .tuple [others, .tuple (Dtype.storedUnit unit)] := by
      rw [Record.field, metadata]
      rfl
    rw [if_pos isTime, timeType_eq isTime isValid.unit_isValid stored, sized]
    rfl
  · rw [if_neg isTime]
    cases isValid with
    | element _ _ => rfl
    | time isTimeToo _ => exact absurd isTimeToo isTime

/-- The elements are put in the order of the state. -/
theorem ordered_eq :
    (match (record.field "byteorder").text? with
    | some order =>
        if order = Text.ofString "<" then
          pure ((Dtype.element kind size false unit).withOrder false)
        else if order = Text.ofString ">" then
          pure ((Dtype.element kind size false unit).withOrder true)
        else
          pure (.element kind size false unit)
    | none => pure (.element kind size false unit) : Except Failure Dtype) =
      .ok (.element kind size bigEndian unit) := by
  have hasOrder : (record.field "byteorder").text? =
      some (Dtype.element kind size bigEndian unit).storedOrder := by
    rw [holds.order]
    rfl
  have apart : Text.ofString ">" ≠ Text.ofString "<" ∧
      Text.ofString "|" ≠ Text.ofString "<" ∧
        Text.ofString "|" ≠ Text.ofString ">" := by
    decide
  rw [hasOrder]
  dsimp only [Dtype.storedOrder, Dtype.withOrder, Dtype.ofElement]
  cases ordered : kind.hasByteOrder size with
  | false =>
      rw [if_neg Bool.false_ne_true, if_neg apart.2.1, if_neg apart.2.2,
        isValid.bigEndian_eq_false ordered]
      rfl
  | true =>
      cases bigEndian with
      | false => simp [pure, Except.pure]
      | true => simp [apart.1, pure, Except.pure]

theorem elementType_eq :
    heap.elementType (Dtype.plainCode kind size) record =
      .ok (.element kind size bigEndian unit) := by
  have admits := isValid.admits
  have coded := Dtype.ofText_plainCode admits
  refine except_bind_eq_ok_iff.mpr ⟨_, congrArg liftM coded, ?_⟩
  dsimp only
  have baseKind : (Dtype.element kind size false none).kind = kind := rfl
  rw [baseKind, holds.size]
  cases flexible : kind.isFlexible with
  | false =>
      rw [if_neg Bool.false_ne_true]
      exact (timed_eq isValid holds _).trans (ordered_eq isValid holds)
  | true =>
      have stored : (Dtype.element kind size bigEndian unit).storedSize =
          (size : Int) := if_pos flexible
      have isPositive : Dtype.isPositive (.int size) = .ok true :=
        congrArg Except.ok (decide_eq_true (Int.natCast_pos.mpr admits.pos))
      have again : Dtype.ofKindAndSize kind (.int size) =
          .ok (.element kind size false none) := by
        cases kind with
        | bytes | void | text => exact coded
        | _ => cases flexible
      rw [if_pos rfl, stored]
      refine except_bind_eq_ok_iff.mpr
        ⟨true, congrArg liftM isPositive, ?_⟩
      rw [if_pos rfl]
      refine except_bind_eq_ok_iff.mpr ⟨_, congrArg liftM again, ?_⟩
      exact (timed_eq isValid holds _).trans (ordered_eq isValid holds)

end Elements

/-! ## Records -/

variable {convert : Value → Except Failure Dtype}

theorem ofRecord_element {kind : ElementKind} {size : Nat}
    {bigEndian : Bool} {unit : Option TimeUnit}
    (isValid : (Dtype.element kind size bigEndian unit).IsValid)
    (holds : record.HoldsType (.element kind size bigEndian unit) .none .none
      .none) :
    convertDtype.ofRecord heap convert record =
      .ok (.element kind size bigEndian unit) := by
  unfold convertDtype.ofRecord
  rw [holds.code, holds.subarray, holds.names]
  exact elementType_eq isValid holds

theorem ofRecord_subarray {value : Value} {base : Dtype} {shape : List Nat}
    (isValid : base.IsValid) (noSubarray : ¬ base.IsSubarray)
    (repeats : base.Repeats shape) (converted : convert value = .ok base)
    (holds : record.HoldsType (.subarray base shape)
      (.tuple [value, .tuple (shape.map extentValue)]) .none .none) :
    convertDtype.ofRecord heap convert record =
      .ok (.subarray base shape) := by
  have paired := repeats.pairType_eq (isValid.isUnsized noSubarray) heap
    (.error .wrongType)
  unfold convertDtype.ofRecord
  rw [holds.code, holds.subarray]
  refine except_bind_eq_ok_iff.mpr ⟨_, rfl, ?_⟩
  refine except_bind_eq_ok_iff.mpr ⟨base, converted, ?_⟩
  refine except_bind_eq_ok_iff.mpr ⟨(shape.map extentValue, heap), rfl, ?_⟩
  exact congrArg liftM paired

/-- Fields at their places, in the form in which they are found. -/
theorem mapM_specOf (fields : List (Text × Nat × Dtype)) :
    (fields.map fun field => (Value.str field.1, field.2.2,
        Value.int field.2.1)).mapM
      (fun (name, type, offset) => do
        let offset ← requireInt offset
        match name.text? with
        | some name => return Dtype.FieldSpec.mk name none type (some offset)
        | none => .error (.refused .badValue)) =
      (.ok (fields.map Dtype.specOf) :
        Except Failure (List Dtype.FieldSpec)) := by
  rw [List.mapM_map]
  exact mapM_eq_ok fun field _ => rfl

section Fields

variable {place : Address} {ordered : Bool}
  {entries : List (Value × Value)} {types : Text → Value}
  {fields : List (Text × Nat × Dtype)}
  (isMapping : heap.get place = .dict ordered entries)

include isMapping

theorem fieldOfRecord_eq {field : Text × Nat × Dtype}
    (found : Entries.find? (.str field.1) entries =
      some (.tuple [types field.1, .int field.2.1]))
    (converted : convert (types field.1) = .ok field.2.2) :
    heap.fieldOfRecord convert (.object place) (.str field.1) =
      .ok (.str field.1, field.2.2, .int field.2.1) := by
  have item : heap.item (.object place) (.str field.1) =
      .ok (.tuple [types field.1, .int field.2.1]) := by
    unfold item
    dsimp only
    rw [isMapping]
    dsimp only
    unfold Entries.lookup
    rw [found]
    rfl
  refine except_bind_eq_ok_iff.mpr ⟨_, congrArg liftM item, ?_⟩
  exact except_bind_eq_ok_iff.mpr
    ⟨(types field.1, .int field.2.1), rfl,
      except_bind_eq_ok_iff.mpr ⟨_, converted, rfl⟩⟩

theorem isTrue_place {field : Text × Nat × Dtype} {value : Value}
    (found : Entries.find? (.str field.1) entries = some value) :
    heap.isTrue (.object place) = .ok true := by
  have nonempty : entries.isEmpty = false := by
    refine List.isEmpty_eq_false_iff.mpr ?_
    rintro rfl
    cases found
  unfold isTrue isTruePlain
  simp only [isMapping, nonempty]
  rfl

theorem structType_eq {size : Nat}
    (areValid : ∀ field ∈ fields, field.2.2.IsValid)
    (laysOut : Dtype.LaysOut fields size)
    (found : ∀ field ∈ fields, Entries.find? (.str field.1) entries =
      some (.tuple [types field.1, .int field.2.1]))
    (converted : ∀ field ∈ fields,
      convert (types field.1) = .ok field.2.2)
    (holdsFields : record.field "fields" = .object place)
    (holdsSize : record.field? "elsize" = some (.int size)) :
    heap.structType convert record
        (.tuple (fields.map fun field => .str field.1)) =
      .ok (.struct fields size) := by
  have hasFields : heap.isTrue (.object place) = .ok true := by
    obtain ⟨field, rest, same⟩ := List.exists_cons_of_ne_nil laysOut.nonempty
    exact isTrue_place isMapping (found field (same ▸ List.mem_cons_self))
  have each : (fields.map fun field => Value.str field.1).mapM
      (fun name => heap.fieldOfRecord convert (.object place) name) =
        .ok (fields.map fun field =>
          (.str field.1, field.2.2, .int field.2.1)) := by
    rw [List.mapM_map]
    exact mapM_eq_ok fun field member =>
      fieldOfRecord_eq isMapping (found field member) (converted field member)
  have isPositive : Dtype.isPositive (.int (size : Int)) =
      .ok (decide ((0 : Int) < size)) := rfl
  have laidOut := laysOut.ofFields_eq areValid
  unfold structType
  rw [holdsFields, holdsSize]
  refine except_bind_eq_ok_iff.mpr ⟨true, congrArg liftM hasFields, ?_⟩
  refine except_bind_eq_ok_iff.mpr ⟨_, rfl, ?_⟩
  refine except_bind_eq_ok_iff.mpr ⟨_, rfl, ?_⟩
  refine except_bind_eq_ok_iff.mpr ⟨_, each, ?_⟩
  refine except_bind_eq_ok_iff.mpr ⟨_, congrArg liftM isPositive, ?_⟩
  by_cases isSized : 0 < size
  · have positive : (0 : Int) < size := Int.natCast_pos.mpr isSized
    rw [if_pos isSized] at laidOut
    rw [if_pos (decide_eq_true positive)]
    refine except_bind_eq_ok_iff.mpr ⟨(size : Int), rfl, ?_⟩
    refine except_bind_eq_ok_iff.mpr ⟨some (size : Int), rfl, ?_⟩
    exact except_bind_eq_ok_iff.mpr
      ⟨_, mapM_specOf fields, congrArg liftM laidOut⟩
  · have notPositive : ¬ decide ((0 : Int) < size) = true := by
      rw [decide_eq_true_iff]
      omega
    rw [if_neg isSized] at laidOut
    rw [if_neg notPositive]
    refine except_bind_eq_ok_iff.mpr ⟨none, rfl, ?_⟩
    exact except_bind_eq_ok_iff.mpr
      ⟨_, mapM_specOf fields, congrArg liftM laidOut⟩

theorem ofRecord_struct {size : Nat}
    (areValid : ∀ field ∈ fields, field.2.2.IsValid)
    (laysOut : Dtype.LaysOut fields size)
    (found : ∀ field ∈ fields, Entries.find? (.str field.1) entries =
      some (.tuple [types field.1, .int field.2.1]))
    (converted : ∀ field ∈ fields,
      convert (types field.1) = .ok field.2.2)
    (holds : record.HoldsType (.struct fields size) .none
      (.tuple (fields.map fun field => .str field.1)) (.object place)) :
    convertDtype.ofRecord heap convert record =
      .ok (.struct fields size) := by
  have hasNames : heap.isTrue
      (.tuple (fields.map fun field => .str field.1)) = .ok true := by
    have nonempty : (fields.map fun field => Value.str field.1).isEmpty =
        false := by
      rw [List.isEmpty_map]
      exact List.isEmpty_eq_false_iff.mpr laysOut.nonempty
    show Except.ok (!(fields.map fun field => Value.str field.1).isEmpty) = _
    rw [nonempty]
    rfl
  unfold convertDtype.ofRecord
  rw [holds.code, holds.subarray, holds.names]
  refine except_bind_eq_ok_iff.mpr ⟨_, rfl, ?_⟩
  refine except_bind_eq_ok_iff.mpr ⟨true, congrArg liftM hasNames, ?_⟩
  rw [if_pos rfl]
  exact structType_eq isMapping areValid laysOut found converted holds.fields
    holds.size

end Fields

end Heap

/-! ## Types -/

/-- What stands for a type is converted to the type. The induction follows what
the records hold of other types. An interpreter's limit on nested calls is left
aside: records may be inside each other to any depth. -/
theorem Heap.Describes.toDtype_eq {heap : Heap} {value : Value} {type : Dtype}
    (describes : heap.Describes value type) (isValid : type.IsValid) :
    heap.toDtype value = .ok type := by
  induction describes with
  | element stores =>
      obtain ⟨record, found, holds⟩ := stores.exists_record
      rw [Heap.toDtype_eq, found]
      exact (if_pos holds.kind).trans (ofRecord_element isValid holds)
  | subarray stores _ inductionHypothesis =>
      obtain ⟨record, found, holds⟩ := stores.exists_record
      cases isValid with
      | subarray isBase noSubarray repeats =>
          rw [Heap.toDtype_eq, found]
          exact (if_pos holds.kind).trans (ofRecord_subarray isBase noSubarray
            repeats (inductionHypothesis isBase) holds)
  | struct stores isMapping entries _ inductionHypothesis =>
      obtain ⟨record, found, holds⟩ := stores.exists_record
      cases isValid with
      | struct areValid laysOut =>
          have converted := fun field member =>
            inductionHypothesis field member (areValid field member)
          rw [Heap.toDtype_eq, found]
          exact (if_pos holds.kind).trans (ofRecord_struct isMapping areValid
            laysOut entries converted holds)

theorem Heap.Describes.exists_record {heap : Heap} {value : Value}
    {type : Dtype} (describes : heap.Describes value type) :
    ∃ address record, heap.record? value = some (address, record) ∧
      record.kind = .dtype := by
  cases describes with
  | element stores | subarray stores _ | struct stores _ _ _ =>
      obtain ⟨record, found, holds⟩ := stores.exists_record
      exact ⟨_, record, found, holds.kind⟩

/-- From a record that stands for a valid type the type is rebuilt, whatever
else the heap holds and whichever records share their parts. -/
theorem Heap.rebuild_of_describes {heap : Heap} {value : Value} {type : Dtype}
    (isValid : type.IsValid) (describes : heap.Describes value type) :
    ∃ address record, heap.record? value = some (address, record) ∧
      heap.rebuild record = .ok (.dtype type, heap) := by
  obtain ⟨address, record, found, isDtype⟩ := describes.exists_record
  refine ⟨address, record, found, ?_⟩
  have converted := describes.toDtype_eq isValid
  rw [Heap.toDtype_eq, found] at converted
  have rebuilt := (if_pos isDtype).symm.trans converted
  unfold rebuild
  rw [isDtype]
  exact except_bind_eq_ok_iff.mpr ⟨type, rebuilt, rfl⟩

/-- A structure of three texts and a time in weeks of the other byte order, with
a gap in front of the time. -/
theorem Heap.rebuild_of_describes_struct :
    let text : Dtype := .element .text 20 false none
    let texts : Dtype := .subarray text [3]
    let time : Dtype := .element .datetime 8 true (some ⟨7, "D", by decide⟩)
    let fields : List (Text × Nat × Dtype) :=
      [("names", 0, texts), ("start", 64, time)]
    let type : Dtype := .struct fields 72
    let entries : List (Value × Value) :=
      [(.str "names", .tuple [.object 1, .int 0]),
        (.str "start", .tuple [.object 2, .int 64])]
    let heap : Heap :=
      ⟨#[.record (text.storedRecord .none .none .none),
        .record (texts.storedRecord
          (.tuple [.object 0, .tuple [.int 3]]) .none .none),
        .record (time.storedRecord .none .none .none),
        .dict false entries,
        .record (type.storedRecord .none
          (.tuple [.str "names", .str "start"]) (.object 3))], 0⟩
    type.IsValid ∧ heap.Describes (.object 4) type ∧
      ∃ address record, heap.record? (.object 4) = some (address, record) ∧
        heap.rebuild record = .ok (.dtype type, heap) := by
  intro text texts time fields type entries heap
  have isText : text.IsValid :=
    .element ⟨5, by decide, by decide, rfl⟩ nofun
  have areTexts : texts.IsValid :=
    .subarray isText id
      ⟨by decide, by decide, by decide, by decide, by decide⟩
  have isTime : time.IsValid :=
    .time (.inr rfl) ⟨by decide, by decide, by decide⟩
  have isValid : type.IsValid := by
    refine .struct ?_ ⟨by decide, by decide, by decide, by decide, rfl⟩
    intro field member
    rcases List.mem_pair.mp member with rfl | rfl
    · exact areTexts
    · exact isTime
  have describes : heap.Describes (.object 4) type := by
    let types : Text → Value := fun name =>
      if name = "names" then .object 1 else .object 2
    have found : ∀ field ∈ fields, Entries.find? (.str field.1) entries =
        some (.tuple [types field.1, .int field.2.1]) := by
      intro field member
      rcases List.mem_pair.mp member with rfl | rfl <;> rfl
    refine .struct (Heap.stores_of_get rfl) rfl found ?_
    intro field member
    rcases List.mem_pair.mp member with rfl | rfl
    · exact .subarray (Heap.stores_of_get rfl)
        (.element (Heap.stores_of_get rfl))
    · exact .element (Heap.stores_of_get rfl)
  exact ⟨isValid, describes, Heap.rebuild_of_describes isValid describes⟩

end PickleGraph
