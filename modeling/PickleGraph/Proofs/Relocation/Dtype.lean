import PickleGraph.Proofs.Heap.Nesting
import PickleGraph.Proofs.Relocation.Description
import PickleGraph.Proofs.Relocation.Items

/-!
# Types over another heap

Values describe the same types over another heap, and records rebuild the same
types.
-/

namespace PickleGraph

open Actions

/-! ## Sizes and names -/

section Values

variable (shift : Shift)

@[simp] theorem Dtype.isPositive_shifted (size : Value) :
    Dtype.isPositive (size.shifted shift) = Dtype.isPositive size := by
  unfold Dtype.isPositive
  rw [Value.plain_shifted]
  cases size.plain <;> rfl

@[simp] theorem Dtype.ofKindAndSize_shifted (kind : ElementKind)
    (size : Value) :
    Dtype.ofKindAndSize kind (size.shifted shift) =
      Dtype.ofKindAndSize kind size := by
  unfold Dtype.ofKindAndSize
  rw [Value.plain_shifted]
  cases size.plain <;> cases kind <;> rfl

@[simp] theorem Dtype.fieldNames_shifted (index : Nat) (value : Value) :
    Dtype.fieldNames index (value.shifted shift) =
      Dtype.fieldNames index value := by
  cases value with
  | tuple items =>
      rcases items with _ | ⟨title, _ | ⟨name, _ | ⟨third, rest⟩⟩⟩
      · rfl
      · rfl
      · simp [Dtype.fieldNames]
      · rfl
  | _ => rfl

namespace Heap

@[simp] theorem offsetOf_shifted (value : Value) :
    offsetOf (value.shifted shift) = offsetOf value := by
  unfold offsetOf
  rw [Value.number?_shifted]

@[simp] theorem requireInt_shifted (value : Value) :
    requireInt (value.shifted shift) = requireInt value := by
  unfold requireInt
  rw [Value.exactInt?_shifted]

@[simp] theorem isExtent_shifted (value : Value) :
    isExtent (value.shifted shift) = isExtent value := by
  cases value <;> rfl

theorem mapM_exactInt?_shifted (items : List Value) :
    (items.map (Value.shifted shift)).mapM Value.exactInt? =
      items.mapM Value.exactInt? := by
  rw [List.mapM_map]
  congr 1
  funext value
  exact Value.exactInt?_shifted shift value

end Heap

end Values

namespace Heap

variable (below heap : Heap)

/-! ## Types described by values -/

@[simp] theorem extents?_atop (value : Value) :
    (heap.atop below).extents? (value.shifted below.shift) =
      heap.extents? value := by
  cases value with
  | tuple items =>
      rw [Value.shifted_tuple]
      exact mapM_exactInt?_shifted below.shift items
  | object address =>
      simp only [extents?, Value.shifted_object, get_atop]
      cases heap.get address with
      | list items =>
          simp only [Object.shifted, Array.toList_map]
          exact mapM_exactInt?_shifted below.shift items.toList
      | _ => rfl
  | _ => rfl

@[simp] theorem positions_atop (value : Value) :
    (heap.atop below).positions (value.shifted below.shift) =
      (heap.positions value).map (List.map (Value.shifted below.shift)) := by
  cases value with
  | tuple items =>
      rw [Value.shifted_tuple]
      rfl
  | str text => simp [positions, Except.map, Function.comp_def]
  | object address =>
      simp only [positions, Value.shifted_object, get_atop]
      cases heap.get address with
      | list items => simp [Object.shifted, Except.map]
      | _ => rfl
  | _ => rfl

@[simp] theorem pairType_atop (base : Dtype) (value : Value)
    (other : Except Refusal Dtype) :
    (heap.atop below).pairType base (value.shifted below.shift) other =
      heap.pairType base value other := by
  unfold pairType
  rw [extents?_atop, isExtent_shifted, Value.exactInt?_shifted]

section Inner

variable {inner further : Value → Except Refusal Dtype} {shift : Shift}
variable (same : ∀ value, further (value.shifted shift) = inner value)

include same

theorem fieldSpec_shifted (index : Nat) (item : Value) :
    fieldSpec further index (item.shifted shift) =
      fieldSpec inner index item := by
  have pair : ∀ type shape : Value,
      further (.tuple [type.shifted shift, shape.shifted shift]) =
        inner (.tuple [type, shape]) := by
    intro type shape
    rw [← same, Value.shifted_tuple]
    rfl
  cases item with
  | tuple items =>
      rcases items with _ | ⟨name, _ | ⟨type, _ | ⟨shape, _ | ⟨fourth, rest⟩⟩⟩⟩
      · rfl
      · rfl
      · simp [fieldSpec, same]
      · simp [fieldSpec, pair]
      · rfl
  | _ => rfl

theorem mapM_fieldSpec_shifted (indices : List Nat) (items : List Value) :
    ((indices.zip (items.map (Value.shifted shift))).mapM
        fun (index, item) => fieldSpec further index item) =
      (indices.zip items).mapM
        fun (index, item) => fieldSpec inner index item := by
  rw [List.zip_map_right, List.mapM_map]
  congr 1
  funext pair
  exact fieldSpec_shifted same pair.1 pair.2

theorem entrySpec?_shifted (entry : Value × Value) :
    entrySpec? further (shiftedEntry shift entry) =
      entrySpec? inner entry := by
  obtain ⟨name, described⟩ := entry
  cases described with
  | tuple items =>
      rcases items with _ | ⟨type, _ | ⟨offset, _ | ⟨title, _ | ⟨fourth, rest⟩⟩⟩⟩
      · rfl
      · rfl
      · have untitled := Value.matchesKey_shifted shift .none name
        have noTitle : Value.none.shifted shift = .none := rfl
        rw [noTitle] at untitled
        simp [entrySpec?, shiftedEntry, same, untitled]
      · simp [entrySpec?, shiftedEntry, same, Value.matchesKey_shifted]
      · rfl
  | _ => rfl

theorem columnSpec_shifted (name format title : Value)
    (offset : Option Value) :
    columnSpec further (name.shifted shift) (format.shifted shift)
        (title.shifted shift) (offset.map (Value.shifted shift)) =
      columnSpec inner name format title offset := by
  cases offset with
  | none => simp [columnSpec, same]
  | some offset => simp [columnSpec, same]

end Inner

theorem column_atop (entries : List (Value × Value)) (key : String)
    (size : Nat) :
    (heap.atop below).column (entries.map (shiftedEntry below.shift)) key
        size =
      (heap.column entries key size).map
        (List.map (Option.map (Value.shifted below.shift))) := by
  unfold column
  rw [Entries.findText?_shifted]
  cases Entries.findText? key entries with
  | none => simp [Except.map]
  | some items =>
      simp only [Option.map_some, positions_atop]
      cases heap.positions items with
      | error refusal => rfl
      | ok values => simp [Except.map, Function.comp_def]

theorem mapM_requireInt_shifted (shift : Shift) (value? : Option Value) :
    (value?.map (Value.shifted shift)).mapM requireInt =
      value?.mapM requireInt := by
  cases value? with
  | none => rfl
  | some value =>
      rw [Option.map_some, Option.mapM_some, Option.mapM_some,
        requireInt_shifted]

section Columns

variable {inner further : Bool → Value → Except Refusal Dtype}
variable (same : ∀ aligned value,
  further aligned (value.shifted below.shift) = inner aligned value)

include same

theorem mapM_columnSpec_shifted (aligned : Bool)
    (names formats : List Value) (offsets titles : List (Option Value)) :
    (((names.map (Value.shifted below.shift)).zip
        (formats.map (Value.shifted below.shift))).zip
      ((offsets.map (Option.map (Value.shifted below.shift))).zip
        (titles.map (Option.map (Value.shifted below.shift))))).mapM
        (fun column => columnSpec (further aligned) column.1.1 column.1.2
          (column.2.2.getD .none) column.2.1) =
      ((names.zip formats).zip (offsets.zip titles)).mapM
        fun column => columnSpec (inner aligned) column.1.1 column.1.2
          (column.2.2.getD .none) column.2.1 := by
  rw [List.zip_map, List.zip_map, List.zip_map, List.mapM_map]
  congr 1
  funext ⟨⟨name, format⟩, ⟨offset, title⟩⟩
  have untitled : (title.map (Value.shifted below.shift)).getD .none =
      (title.getD .none).shifted below.shift := by
    cases title <;> rfl
  simp only [Function.comp, Prod.map, untitled]
  exact columnSpec_shifted (same aligned) name format (title.getD .none) offset

theorem columnsType_atop (aligned : Bool) (entries : List (Value × Value))
    (names formats : Value) :
    (heap.atop below).columnsType further aligned
        (entries.map (shiftedEntry below.shift))
        (names.shifted below.shift) (formats.shifted below.shift) =
      heap.columnsType inner aligned entries names formats := by
  unfold columnsType
  rw [positions_atop, positions_atop, except_map_bind]
  refine except_bind_congr fun names => ?_
  rw [except_map_bind]
  refine except_bind_congr fun formats => ?_
  rw [List.length_map, column_atop, except_map_bind]
  refine except_bind_congr fun offsets => ?_
  rw [column_atop, except_map_bind]
  refine except_bind_congr fun titles => ?_
  simp only [List.length_map, Entries.findText?_shifted,
    mapM_columnSpec_shifted below same, mapM_requireInt_shifted]
  cases Entries.findText? "aligned" entries with
  | none => rfl
  | some flag => cases flag <;> rfl

end Columns

/-- A value describes the same type. -/
theorem dtypeWithin_atop (depth : Nat) (aligned : Bool) (value : Value) :
    (heap.atop below).dtypeWithin depth aligned
        (value.shifted below.shift) =
      heap.dtypeWithin depth aligned value := by
  induction depth generalizing aligned value with
  | zero => rfl
  | succ depth inductionHypothesis =>
      cases value with
      | tuple items =>
          rw [Value.shifted_tuple]
          rcases items with _ | ⟨type, _ | ⟨other, _ | ⟨third, rest⟩⟩⟩
          · rfl
          · rfl
          · simp only [List.map_cons, List.map_nil, dtypeWithin,
              inductionHypothesis, pairType_atop]
          · rfl
      | object address =>
          simp only [Value.shifted_object, dtypeWithin, get_atop]
          cases heap.get address with
          | list items =>
              simp only [Object.shifted, Array.size_map, Array.toList_map,
                mapM_fieldSpec_shifted (inductionHypothesis aligned)]
          | dict ordered entries =>
              have fields : (entries.map (shiftedEntry below.shift)).mapM
                  (entrySpec? ((heap.atop below).dtypeWithin depth aligned)) =
                    entries.mapM
                      (entrySpec? (heap.dtypeWithin depth aligned)) := by
                rw [List.mapM_map]
                congr 1
                funext entry
                exact entrySpec?_shifted (inductionHypothesis aligned) entry
              simp only [Object.shifted, Entries.findText?_shifted, fields]
              cases Entries.findText? "names" entries with
              | none => rfl
              | some names =>
                  cases Entries.findText? "formats" entries with
                  | none => rfl
                  | some formats =>
                      exact columnsType_atop below heap inductionHypothesis
                        aligned entries names formats
          | _ => rfl
      | _ => rfl

@[simp] theorem dtypeOf_atop (value : Value) :
    (heap.atop below).dtypeOf (value.shifted below.shift) =
      heap.dtypeOf value :=
  dtypeWithin_atop below heap Dtype.maxNesting false value

/-! ## Types rebuilt from records -/

/-- The item of a time's metadata that holds its unit and its count. -/
theorem timeItem_atop (metadata : Value) :
    (do (heap.atop below).firstTwo (← (heap.atop below).item
        (metadata.shifted below.shift) (.int 1)) :
          Except Refusal (Value × Value)) =
      (do heap.firstTwo (← heap.item metadata (.int 1)) :
        Except Refusal (Value × Value)).map (shiftedEntry below.shift) := by
  rw [except_bind_map]
  refine (congrArg (· >>= _)
    (item_atop below heap metadata (.int 1))).trans ?_
  rw [except_map_bind]
  exact except_bind_congr fun described => firstTwo_atop below heap described

/-- A time's unit with its count. -/
theorem timeText_atop (unit count : Value) :
    (if (unit.shifted below.shift).matchesKey
          (.str (Text.ofString Dtype.genericUnit)) then
        return .str []
      else if (count.shifted below.shift).matchesKey (.int 1) then
        return unit.shifted below.shift
      else
        return .str
          ((← (heap.atop below).wording (count.shifted below.shift)) ++
            (← (heap.atop below).wording (unit.shifted below.shift))) :
              Except Failure Value) =
      (if unit.matchesKey (.str (Text.ofString Dtype.genericUnit)) then
        return .str []
      else if count.matchesKey (.int 1) then
        return unit
      else
        return .str ((← heap.wording count) ++ (← heap.wording unit)) :
          Except Failure Value).map (Value.shifted below.shift) := by
  have single : (count.shifted below.shift).matchesKey (.int 1) =
      count.matchesKey (.int 1) :=
    Value.matchesKey_shifted below.shift count (.int 1)
  rw [Value.matchesKey_str_shifted, single, wording_atop, wording_atop]
  split
  · rfl
  · split
    · rfl
    · cases heap.wording count with
      | error refusal => rfl
      | ok first => cases heap.wording unit <;> rfl

/-- The unit that an item of a time's metadata states. -/
theorem statedUnit_atop (unit count : Value) :
    (do
      let unit ←
        match (unit.shifted below.shift).plain with
        | .bytes content =>
            if content.all (· < 0x80) then
              pure (Value.str (Text.ofLatin1 content))
            else
              .error (.refused .undecodable)
        | _ => pure (unit.shifted below.shift)
      if unit.matchesKey (.str (Text.ofString Dtype.genericUnit)) then
        return .str []
      else if (count.shifted below.shift).matchesKey (.int 1) then
        return unit
      else
        return .str
          ((← (heap.atop below).wording (count.shifted below.shift)) ++
            (← (heap.atop below).wording unit)) : Except Failure Value) =
      (do
        let unit ←
          match unit.plain with
          | .bytes content =>
              if content.all (· < 0x80) then
                pure (Value.str (Text.ofLatin1 content))
              else
                .error (.refused .undecodable)
          | _ => pure unit
        if unit.matchesKey (.str (Text.ofString Dtype.genericUnit)) then
          return .str []
        else if count.matchesKey (.int 1) then
          return unit
        else
          return .str ((← heap.wording count) ++ (← heap.wording unit)) :
            Except Failure Value).map (Value.shifted below.shift) := by
  rw [Value.plain_shifted]
  cases unit.plain with
  | bytes content =>
      dsimp only [Value.shifted]
      split
      · exact timeText_atop below heap (.str (Text.ofLatin1 content)) count
      · rfl
  | _ => exact timeText_atop below heap unit count

theorem timeUnit_atop (record : Record) :
    (heap.atop below).timeUnit (record.shifted below.shift) =
      (heap.timeUnit record).map (Value.shifted below.shift) := by
  unfold timeUnit
  rw [Record.field_shifted]
  generalize record.field "metadata" = metadata
  have found := timeItem_atop below heap metadata
  have quoted := quote_atop below heap metadata
  cases metadata with
  | none => rfl
  | _ =>
      dsimp only [Value.shifted] at found quoted ⊢
      rw [found, quoted]
      generalize (do heap.firstTwo (← heap.item _ (.int 1)) :
        Except Refusal (Value × Value)) = outcome
      cases outcome with
      | error refusal =>
          cases refusal with
          | missingKey => rfl
          | _ => cases heap.quote _ <;> rfl
      | ok described => exact statedUnit_atop below heap _ _

/-- A time has the same type. -/
@[simp] theorem timeType_atop (kind : ElementKind) (record : Record) :
    (heap.atop below).timeType kind (record.shifted below.shift) =
      heap.timeType kind record := by
  unfold timeType
  rw [timeUnit_atop, except_map_bind]
  refine except_bind_congr fun unit => ?_
  rw [isTrue_atop, wording_atop]

@[simp] theorem elementType_atop (code : Text) (record : Record) :
    (heap.atop below).elementType code (record.shifted below.shift) =
      heap.elementType code record := by
  have size : ((record.shifted below.shift).field? "elsize").getD
      (.int (-1)) =
        ((record.field? "elsize").getD (.int (-1))).shifted below.shift := by
    rw [Record.field?_shifted]
    cases record.field? "elsize" <;> rfl
  unfold elementType
  simp only [size, Dtype.isPositive_shifted, Dtype.ofKindAndSize_shifted,
    timeType_atop, Record.field_shifted, Value.text?_shifted]

section Convert

variable {convert further : Value → Except Failure Dtype}
variable (same : ∀ value,
  further (value.shifted below.shift) = convert value)

include same

theorem fieldOfRecord_atop (fields name : Value) :
    (heap.atop below).fieldOfRecord further (fields.shifted below.shift)
        (name.shifted below.shift) =
      (heap.fieldOfRecord convert fields name).map
        fun (name, type, offset) =>
          (name.shifted below.shift, type, offset.shifted below.shift) := by
  unfold fieldOfRecord
  rw [item_atop]
  cases heap.item fields name with
  | error refusal => rfl
  | ok described =>
      dsimp only [Except.map]
      show (liftM ((heap.atop below).firstTwo
        (described.shifted below.shift)) >>= _) = Except.map _
          (liftM (heap.firstTwo described) >>= _)
      rw [firstTwo_atop]
      cases heap.firstTwo described with
      | error refusal => rfl
      | ok pair =>
          obtain ⟨type, offset⟩ := pair
          show (further (type.shifted below.shift) >>= _) =
            Except.map _ (convert type >>= _)
          rw [same]
          cases convert type <;> rfl

/-- The fields of a structure are found in the same order. -/
theorem fieldsOfRecord_atop {isAbsent isAbsentOver : Bool}
    (absent : isAbsentOver = isAbsent) (fields names : Value)
    {finish finishOver :
      List (Value × Dtype × Value) → Except Failure Dtype}
    (finishes : ∀ found, finishOver (found.map fun (name, type, offset) =>
      (name.shifted below.shift, type, offset.shifted below.shift)) =
        finish found) :
    ((((heap.atop below).iterate (names.shifted below.shift)).mapError
        Failure.refused >>= fun listed =>
          listed.1.mapM (fun name =>
            if isAbsentOver then .error (.refused .missingKey)
            else (heap.atop below).fieldOfRecord further
              (fields.shifted below.shift) name) >>= finishOver)) =
      (heap.iterate names).mapError Failure.refused >>= fun listed =>
        listed.1.mapM (fun name =>
          if isAbsent then .error (.refused .missingKey)
          else heap.fieldOfRecord convert fields name) >>= finish := by
  subst absent
  have found : ∀ items : List Value,
      ((items.map (Value.shifted below.shift)).mapM fun name =>
        if isAbsentOver then .error (.refused .missingKey)
        else (heap.atop below).fieldOfRecord further
          (fields.shifted below.shift) name) =
        (items.mapM fun name =>
          if isAbsentOver then .error (.refused .missingKey)
          else heap.fieldOfRecord convert fields name).map
            (List.map fun (name, type, offset) =>
              (name.shifted below.shift, type,
                offset.shifted below.shift)) := by
    intro items
    refine except_mapM_map items fun name => ?_
    cases isAbsentOver with
    | true => rfl
    | false => exact fieldOfRecord_atop below heap same fields name
  rw [carryOver_iterate, except_map_mapError, except_map_bind]
  refine except_bind_congr fun listed => ?_
  dsimp only [carryItems, carryOver]
  rw [found, except_map_bind]
  exact except_bind_congr finishes

omit same in
theorem isUnit_shifted (fields : Value) :
    (match fields.shifted below.shift with
      | .tuple [] => true
      | _ => false) =
      (match fields with
        | .tuple [] => true
        | _ => false) := by
  cases fields with
  | tuple items => cases items <;> rfl
  | _ => rfl

theorem structType_atop (record : Record) (names : Value) :
    (heap.atop below).structType further (record.shifted below.shift)
        (names.shifted below.shift) =
      heap.structType convert record names := by
  have size : ((record.shifted below.shift).field? "elsize").getD
      (.int (-1)) =
        ((record.field? "elsize").getD (.int (-1))).shifted below.shift := by
    rw [Record.field?_shifted]
    cases record.field? "elsize" <;> rfl
  unfold structType
  simp only [size, Dtype.isPositive_shifted, requireInt_shifted,
    Record.field_shifted, isTrue_atop]
  refine except_bind_congr fun hasFields => ?_
  split
  · refine fieldsOfRecord_atop below heap same
      (isUnit_shifted below _)
      (record.field "fields") names fun found => ?_
    simp only [List.mapM_map, Function.comp_def, Value.text?_shifted,
      requireInt_shifted]
  · refine fieldsOfRecord_atop below heap same
      (isUnit_shifted below (.tuple []))
      (.tuple []) names fun found => ?_
    simp only [List.mapM_map, Function.comp_def, Value.text?_shifted,
      requireInt_shifted]

/-- What the description of a subarray or its absence asks for. -/
theorem described_atop (code : Text) (record : Record) (described : Value) :
    (match described.shifted below.shift with
      | .tuple [base, shape] => do
          let base ← further base
          let (extents, _) ← (heap.atop below).iterate shape
          (heap.atop below).pairType base (.tuple extents)
            (.error .wrongType)
      | .none => do
          let names := (record.shifted below.shift).field "names"
          if ← (heap.atop below).isTrue names then
            (heap.atop below).structType further
              (record.shifted below.shift) names
          else
            (heap.atop below).elementType code (record.shifted below.shift)
      | value => do
          Failure.raise (.badSubarray (← (heap.atop below).quote value)) :
        Except Failure Dtype) =
      (match described with
        | .tuple [base, shape] => do
            let base ← convert base
            let (extents, _) ← heap.iterate shape
            heap.pairType base (.tuple extents) (.error .wrongType)
        | .none => do
            let names := record.field "names"
            if ← heap.isTrue names then
              heap.structType convert record names
            else
              heap.elementType code record
        | value => do
            Failure.raise (.badSubarray (← heap.quote value))) := by
  have raised : (do Failure.raise (.badSubarray
      (← (heap.atop below).quote (described.shifted below.shift))) :
        Except Failure Dtype) =
      (do Failure.raise (.badSubarray (← heap.quote described))) := by
    rw [quote_atop]
  cases described with
  | none =>
      dsimp only [Value.shifted]
      rw [Record.field_shifted, isTrue_atop, structType_atop below heap same,
        elementType_atop]
  | tuple items =>
      rw [Value.shifted_tuple] at raised ⊢
      rcases items with _ | ⟨base, _ | ⟨shape, _ | ⟨third, rest⟩⟩⟩
      · exact raised
      · exact raised
      · show (further (base.shifted below.shift) >>= _) =
          (convert base >>= _)
        rw [same]
        refine except_bind_congr fun base => ?_
        rw [carryOver_iterate]
        cases heap.iterate shape with
        | error refusal => rfl
        | ok made =>
            have paired := pairType_atop below heap base (.tuple made.1)
              (.error .wrongType)
            rw [Value.shifted_tuple] at paired
            exact congrArg (Except.mapError Failure.refused) paired
      · exact raised
  | _ => exact raised

theorem ofRecord_atop (record : Record) :
    convertDtype.ofRecord (heap.atop below) further
        (record.shifted below.shift) =
      convertDtype.ofRecord heap convert record := by
  have described := fun code => described_atop below heap same code record
    (record.field "subdescr")
  unfold convertDtype.ofRecord
  dsimp only
  rw [Record.field_shifted, Record.field_shifted, Value.plain_shifted,
    quote_atop]
  cases (record.field "obj").plain with
  | str text => exact described text
  | bytes content =>
      dsimp only [Value.shifted]
      split
      · exact described (Text.ofLatin1 content)
      · rfl
  | _ => cases heap.quote (record.field "obj") <;> rfl

end Convert

theorem convertDtype_atop (depth : Nat) (value : Value) :
    (heap.atop below).convertDtype depth (value.shifted below.shift) =
      heap.convertDtype depth value := by
  induction depth generalizing value with
  | zero => rfl
  | succ depth inductionHypothesis =>
      rw [convertDtype, convertDtype, record?_atop, dtypeOf_atop]
      cases heap.record? value with
      | none => rfl
      | some found =>
          have rebuilt := ofRecord_atop below heap inductionHypothesis found.2
          simp only [Option.map_some, rebuilt]
          rfl

/-- There are more objects below, but the depth that they add is not needed. -/
@[simp] theorem toDtype_atop (value : Value) :
    (heap.atop below).toDtype (value.shifted below.shift) =
      heap.toDtype value := by
  have enough :
      heap.objects.size < (heap.atop below).objects.size + 1 := by
    rw [size_atop]
    omega
  rw [← convertDtype_of_le enough]
  exact convertDtype_atop below heap _ value

@[simp] theorem payloadDtype_atop (value : Value) :
    (heap.atop below).payloadDtype (value.shifted below.shift) =
      heap.payloadDtype value := by
  unfold payloadDtype
  rw [toDtype_atop, quote_atop]

end Heap

end PickleGraph
