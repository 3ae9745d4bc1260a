import PickleGraph.Construction.Instance
import PickleGraph.Proofs.Construction.State

/-!
# Records filled by position

A record may be made of values by position and then take a state by position.
Names and values need not be equally many in either. Nothing is lost all the
same: the record keeps its arguments, the first of them also under their names,
and the state can be put together again from the fields.
-/

namespace PickleGraph

theorem Value.apart_texts {names : List Text} (distinct : names.Nodup) :
    Value.Apart (names.map Value.str) := by
  rw [Value.Apart, List.pairwise_map]
  refine distinct.imp fun {first second} different => ?_
  rw [← Bool.not_eq_true, Value.str_matchesKey_str_iff]
  exact different

/-! ## Names with values -/

namespace Entries

/-- The first names with the first values. -/
def positioned (names : List Text) (values : List Value) :
    List (Value × Value) :=
  (names.map Value.str).zip values

theorem keys_positioned (names : List Text) (values : List Value) :
    (positioned names values).map (·.1) =
      (names.take values.length).map Value.str := by
  unfold positioned
  induction names generalizing values with
  | nil => simp
  | cons name names inductionHypothesis =>
      cases values with
      | nil => rfl
      | cons value values =>
          exact congrArg (_ :: ·) (inductionHypothesis values)

theorem find?_positioned_of_notMem {name : Text} {names : List Text}
    (other : name ∉ names) (values : List Value) :
    find? (.str name) (positioned names values) = none := by
  unfold positioned
  induction names generalizing values with
  | nil => rfl
  | cons first names inductionHypothesis =>
      obtain ⟨different, later⟩ := not_or.mp (mt List.mem_cons.mpr other)
      cases values with
      | nil => rfl
      | cons value values =>
          rw [List.map_cons, List.zip_cons_cons, find?_str_cons,
            if_neg (Ne.symm different)]
          exact inductionHypothesis later values

/-- A name has the value at its place, if there are so many. -/
theorem find?_positioned {names : List Text} (distinct : names.Nodup)
    {index : Nat} {name : Text} (isThere : names[index]? = some name)
    (values : List Value) :
    find? (.str name) (positioned names values) = values[index]? := by
  unfold positioned
  induction names generalizing index values with
  | nil => cases isThere
  | cons first names inductionHypothesis =>
      obtain ⟨fresh, others⟩ := List.nodup_cons.mp distinct
      cases values with
      | nil => rfl
      | cons value values =>
          rw [List.map_cons, List.zip_cons_cons, find?_str_cons]
          cases index with
          | zero => rw [if_pos (Option.some.inj isThere)]; rfl
          | succ index =>
              have later : names[index]? = some name := isThere
              have different : first ≠ name := by
                rintro rfl
                exact fresh (List.mem_of_getElem? later)
              rw [if_neg different]
              exact inductionHypothesis others later values

end Entries

/-- What is found under names one after the other are the first values. -/
theorem filterMap_eq_take {names : List Text} {values : List Value}
    {found : Text → Option Value}
    (agrees : ∀ (index : Nat) name, names[index]? = some name →
      found name = values[index]?) :
    names.filterMap found = values.take names.length := by
  induction names generalizing values with
  | nil => rfl
  | cons name names inductionHypothesis =>
      have first := agrees 0 name rfl
      have others : ∀ (index : Nat) later, names[index]? = some later →
          found later = values.tail[index]? := by
        intro index later isThere
        rw [List.getElem?_tail]
        exact agrees (index + 1) later isThere
      rw [List.filterMap_cons, first, inductionHypothesis others]
      cases values with
      | nil => simp
      | cons value values => rfl

namespace Record

/-! ## Filling -/

/-- The field of all the values that have no names. -/
def stateName : Text := Text.ofString "state"

/-- The field of the values beyond the names. -/
def extraName : Text := Text.ofString "extra_state"

/-- The fields that a state with these items fills by position. -/
def stateFields (names : List Text) (state : Value) (items : List Value) :
    List (Value × Value) :=
  if names.isEmpty then
    [(.str stateName, state)]
  else
    Entries.positioned names items ++
      if names.length < items.length then
        [(.str extraName, .tuple (items.drop names.length))]
      else
        []

theorem fillPositions_eq {names : List Text} (hasNames : names.isEmpty = false)
    (record : Record) (state : Value) (items : List Value) :
    record.fillPositions names items =
      record.update (stateFields names state items) := by
  have filled : ∀ pairs : List (Text × Value),
      pairs.foldl (fun record pair => record.setField pair.1 pair.2) record =
      record.update (pairs.map (Prod.map .str id)) := by
    intro pairs
    induction pairs generalizing record with
    | nil => rfl
    | cons pair rest inductionHypothesis => exact inductionHypothesis _
  have zipped : (names.zip items).map (Prod.map .str id) =
      Entries.positioned names items := List.zip_map_left.symm
  unfold fillPositions stateFields
  rw [filled, zipped, hasNames, if_neg Bool.false_ne_true]
  dsimp only
  split
  · rw [update_append]
    rfl
  · rw [List.append_nil]

/-- A tuple or a list fills the fields by position. -/
theorem applyState_items {record : Record} {target : Text} {kind : RecordKind}
    {argumentNames stateNames : List Text}
    (strategy : record.strategy =
      .extension target kind argumentNames stateNames)
    {heap : Heap} {state : Value} {items : List Value}
    (holds : stateItems? heap state = some items) :
    record.applyState heap state =
      .ok (record.update (stateFields stateNames state items)) := by
  have noMapping : heap.entries? state = none := by
    unfold stateItems? at holds
    unfold Heap.entries?
    split at holds
    · rfl
    · split at holds
      · next here => simp only [here]
      · cases holds
    · cases holds
  unfold applyState
  rw [strategy, noMapping, holds]
  dsimp only
  cases hasNames : stateNames.isEmpty with
  | true =>
      rw [if_pos rfl, stateFields, if_pos hasNames]
      rfl
  | false =>
      rw [if_neg Bool.false_ne_true, fillPositions_eq hasNames record state]

/-! ## Names that are apart -/

/-- All names are distinct, and none is that of a field for values without
names. -/
structure NamesApart (argumentNames stateNames : List Text) : Prop where
  distinct : (argumentNames ++ stateNames).Nodup
  noState : stateName ∉ argumentNames ++ stateNames
  noExtra : extraName ∉ argumentNames ++ stateNames

/-- The fields that hold values beyond the names. -/
def restNames (names : List Text) (items : List Value) : List Text :=
  if names.isEmpty then [stateName]
  else if names.length < items.length then [extraName]
  else []

theorem keys_stateFields (names : List Text) (state : Value)
    (items : List Value) :
    (stateFields names state items).map (·.1) =
      (names.take items.length ++ restNames names items).map Value.str := by
  unfold stateFields restNames
  split
  · next isEmpty =>
      rw [List.isEmpty_iff.mp isEmpty, List.take_nil]
      rfl
  · rw [List.map_append, List.map_append, Entries.keys_positioned]
    split <;> rfl

/-- All that is filled in by position has a name of its own. -/
theorem NamesApart.distinct_filled {argumentNames stateNames : List Text}
    (apart : NamesApart argumentNames stateNames) (args items : List Value) :
    (argumentNames.take args.length ++ stateNames.take items.length ++
      restNames stateNames items).Nodup := by
  have taken : (argumentNames.take args.length ++
      stateNames.take items.length).Sublist (argumentNames ++ stateNames) :=
    (List.take_sublist _ _).append (List.take_sublist _ _)
  have single : ∀ {name : Text}, name ∉ argumentNames ++ stateNames →
      (argumentNames.take args.length ++ stateNames.take items.length ++
        [name]).Nodup := by
    intro name fresh
    rw [(List.perm_append_singleton name _).nodup_iff]
    exact List.nodup_cons.mpr
      ⟨fun member => fresh (taken.subset member),
        apart.distinct.sublist taken⟩
  unfold restNames
  split
  · exact single apart.noState
  · split
    · exact single apart.noExtra
    · rw [List.append_nil]
      exact apart.distinct.sublist taken

/-! ## What has been filled in -/

/-- The items of the state that a record has been filled with by position: the
values of the leading names and what is kept beyond them, or what is kept as a
whole. -/
def restoredState? (heap : Heap) (names : List Text) (record : Record) :
    Option (List Value) :=
  let find (name : Text) := Entries.find? (.str name) record.fields
  if names.isEmpty then
    (find stateName).bind (stateItems? heap)
  else
    match find extraName with
    | none => some (names.filterMap find)
    | some (.tuple rest) => some (names.filterMap find ++ rest)
    | some _ => none

section Filled

variable {argumentNames stateNames : List Text} {args items : List Value}
variable {state : Value} (apart : NamesApart argumentNames stateNames)

/-- The fields of a record that was made from arguments and has taken a
state. -/
def filledFields (argumentNames : List Text) (args : List Value)
    (stateNames : List Text) (state : Value) (items : List Value) :
    List (Value × Value) :=
  Entries.positioned argumentNames args ++ stateFields stateNames state items

theorem find?_stateFields_of_notMem {name : Text} (other : name ∉ stateNames)
    (notState : name ≠ stateName) (notExtra : name ≠ extraName) :
    Entries.find? (.str name) (stateFields stateNames state items) =
      none := by
  unfold stateFields
  split
  · rw [Entries.find?_str_cons, if_neg (Ne.symm notState)]
    rfl
  · rw [Entries.find?_append, Entries.find?_positioned_of_notMem other]
    split
    · rw [Entries.find?_str_cons, if_neg (Ne.symm notExtra)]
      rfl
    · rfl

/-- What has no argument is found among the fields of the state. -/
theorem find?_of_notArgument {name : Text} (other : name ∉ argumentNames) :
    Entries.find? (.str name)
        (filledFields argumentNames args stateNames state items) =
      Entries.find? (.str name) (stateFields stateNames state items) := by
  rw [filledFields, Entries.find?_append,
    Entries.find?_positioned_of_notMem other, Option.none_or]

include apart

theorem find?_argument {index : Nat} {name : Text}
    (isThere : argumentNames[index]? = some name) :
    Entries.find? (.str name)
        (filledFields argumentNames args stateNames state items) =
      args[index]? := by
  have member := List.mem_of_getElem? isThere
  obtain ⟨distinct, _, disjoint⟩ := List.nodup_append.mp apart.distinct
  have absent : Entries.find? (.str name)
      (stateFields stateNames state items) = none := by
    refine find?_stateFields_of_notMem
      (fun isState => disjoint name member name isState rfl) ?_ ?_
    · rintro rfl
      exact apart.noState (List.mem_append_left _ member)
    · rintro rfl
      exact apart.noExtra (List.mem_append_left _ member)
  rw [filledFields, Entries.find?_append,
    Entries.find?_positioned distinct isThere, absent, Option.or_none]

theorem find?_state {index : Nat} {name : Text}
    (isThere : stateNames[index]? = some name) :
    Entries.find? (.str name)
        (filledFields argumentNames args stateNames state items) =
      items[index]? := by
  have member := List.mem_of_getElem? isThere
  obtain ⟨_, distinct, disjoint⟩ := List.nodup_append.mp apart.distinct
  have hasNames : ¬ stateNames.isEmpty = true := by
    rw [List.isEmpty_iff]
    exact List.ne_nil_of_mem member
  have absent : Entries.find? (.str name)
      (if stateNames.length < items.length then
        [(.str extraName, .tuple (items.drop stateNames.length))]
      else []) = none := by
    split
    · have different : extraName ≠ name := by
        rintro rfl
        exact apart.noExtra (List.mem_append_right _ member)
      rw [Entries.find?_str_cons, if_neg different]
      rfl
    · rfl
  have noArgument : name ∉ argumentNames :=
    fun isArgument => disjoint name isArgument name member rfl
  rw [find?_of_notArgument noArgument, stateFields, if_neg hasNames,
    Entries.find?_append, Entries.find?_positioned distinct isThere, absent,
    Option.or_none]

theorem find?_stateName :
    Entries.find? (.str stateName)
        (filledFields argumentNames args stateNames state items) =
      if stateNames.isEmpty then some state else none := by
  have noArgument : stateName ∉ argumentNames :=
    fun member => apart.noState (List.mem_append_left _ member)
  have noName : stateName ∉ stateNames :=
    fun member => apart.noState (List.mem_append_right _ member)
  have different : extraName ≠ stateName := by decide
  rw [find?_of_notArgument noArgument, stateFields]
  split
  · rw [Entries.find?_str_cons, if_pos rfl]
  · rw [Entries.find?_append, Entries.find?_positioned_of_notMem noName]
    split
    · rw [Entries.find?_str_cons, if_neg different]
      rfl
    · rfl

theorem find?_extraName :
    Entries.find? (.str extraName)
        (filledFields argumentNames args stateNames state items) =
      if stateNames ≠ [] ∧ stateNames.length < items.length then
        some (.tuple (items.drop stateNames.length))
      else
        none := by
  have noArgument : extraName ∉ argumentNames :=
    fun member => apart.noExtra (List.mem_append_left _ member)
  have noName : extraName ∉ stateNames :=
    fun member => apart.noExtra (List.mem_append_right _ member)
  have different : stateName ≠ extraName := by decide
  rw [find?_of_notArgument noArgument, stateFields]
  by_cases isEmpty : stateNames = []
  · rw [if_pos (List.isEmpty_iff.mpr isEmpty), Entries.find?_str_cons,
      if_neg different, if_neg fun both => both.1 isEmpty]
    rfl
  · rw [if_neg (mt List.isEmpty_iff.mp isEmpty), Entries.find?_append,
      Entries.find?_positioned_of_notMem noName, Option.none_or]
    by_cases longer : stateNames.length < items.length
    · rw [if_pos longer, if_pos ⟨isEmpty, longer⟩, Entries.find?_str_cons,
        if_pos rfl]
    · rw [if_neg longer, if_neg fun both => longer both.2]
      rfl

theorem restoredState?_filled {heap : Heap}
    (holds : stateItems? heap state = some items) {record : Record}
    (filled : record.fields =
      filledFields argumentNames args stateNames state items) :
    record.restoredState? heap stateNames = some items := by
  have leading : stateNames.filterMap
      (fun name => Entries.find? (.str name) record.fields) =
        items.take stateNames.length := by
    rw [filled]
    exact filterMap_eq_take fun index name => find?_state apart
  unfold restoredState?
  dsimp only
  rw [leading, filled, find?_stateName apart, find?_extraName apart]
  by_cases isEmpty : stateNames = []
  · rw [if_pos (List.isEmpty_iff.mpr isEmpty),
      if_pos (List.isEmpty_iff.mpr isEmpty)]
    exact holds
  · rw [if_neg (mt List.isEmpty_iff.mp isEmpty)]
    by_cases longer : stateNames.length < items.length
    · rw [if_pos ⟨isEmpty, longer⟩]
      exact congrArg some (List.take_append_drop _ items)
    · rw [if_neg fun both => longer both.2]
      exact congrArg some
        (List.take_of_length_le (Nat.le_of_not_lt longer))

/-- No two of the fields are bound to one name, so that they stand one after the
other. -/
theorem merge_stateFields :
    Entries.merge (Entries.positioned argumentNames args)
        (stateFields stateNames state items) =
      filledFields argumentNames args stateNames state items := by
  refine Entries.merge_of_apart ?_
  rw [List.map_append, Entries.keys_positioned, keys_stateFields,
    ← List.map_append, ← List.append_assoc]
  exact Value.apart_texts (apart.distinct_filled args items)

end Filled

end Record

/-- A record that is made from arguments by position. -/
def TypeRef.positional (reference : TypeRef) (kind : RecordKind)
    (argumentNames : List Text) (args : List Value) : Record where
  kind := kind
  module := reference.module
  name := reference.name
  target := reference.strategy.target
  strategy := reference.strategy
  args := args
  fields := Entries.positioned argumentNames args

theorem TypeRef.instantiate_positional {reference : TypeRef} {target : Text}
    {kind : RecordKind} {argumentNames stateNames : List Text}
    (strategy : reference.strategy =
      .extension target kind argumentNames stateNames)
    (distinct : argumentNames.Nodup) (args : List Value) (heap : Heap) :
    reference.instantiate (Call.ofArgs args) heap =
      .ok (heap.alloc
        (.record (reference.positional kind argumentNames args))) := by
  have merged : Entries.merge [] (Entries.positioned argumentNames args) =
      Entries.positioned argumentNames args := by
    refine Entries.merge_of_apart ?_
    rw [List.nil_append, Entries.keys_positioned]
    exact Value.apart_texts (distinct.sublist (List.take_sublist _ _))
  have fields : reference.strategy.initialFields (Call.ofArgs args) =
      Entries.positioned argumentNames args := by
    rw [strategy]
    exact merged
  unfold instantiate instantiateWith
  rw [strategy]
  dsimp only
  rw [newRecord, fields]
  rfl

open Record in
/-- A record that is made from arguments by position and takes a tuple or a list
as its state loses nothing of either, whatever the numbers of names and values.
It keeps the arguments, and the names for them hold the first ones. The names
for the state hold its first items. What is left of the state is kept together,
or the state as a whole if there are no names, so that the items can be put
together again. There are no other fields. -/
theorem Record.applyState_positional {reference : TypeRef} {target : Text}
    {kind : RecordKind} {argumentNames stateNames : List Text}
    (strategy : reference.strategy =
      .extension target kind argumentNames stateNames)
    (apart : NamesApart argumentNames stateNames) (args : List Value) :
    ∃ made : Record,
      (∀ heap, reference.instantiate (Call.ofArgs args) heap =
        .ok (heap.alloc (.record made))) ∧
      ∀ (heap : Heap) (state : Value) (items : List Value),
        stateItems? heap state = some items →
        ∃ fields, made.applyState heap state =
            .ok { made with fields := fields } ∧
          made.args = args ∧
          (∀ (index : Nat) name, argumentNames[index]? = some name →
            Entries.find? (.str name) fields = args[index]?) ∧
          (∀ (index : Nat) name, stateNames[index]? = some name →
            Entries.find? (.str name) fields = items[index]?) ∧
          Entries.find? (.str (Text.ofString "extra_state")) fields =
            (if stateNames ≠ [] ∧ stateNames.length < items.length then
              some (.tuple (items.drop stateNames.length))
            else none) ∧
          Entries.find? (.str (Text.ofString "state")) fields =
            (if stateNames.isEmpty then some state else none) ∧
          { made with fields := fields }.restoredState? heap stateNames =
            some items ∧
          fields.map (·.1) =
            (argumentNames.take args.length ++
              stateNames.take items.length ++
                restNames stateNames items).map Value.str := by
  have distinct : argumentNames.Nodup :=
    (List.nodup_append.mp apart.distinct).1
  refine ⟨reference.positional kind argumentNames args,
    reference.instantiate_positional strategy distinct args,
    fun heap state items holds => ?_⟩
  refine ⟨filledFields argumentNames args stateNames state items, ?_, rfl,
    fun _ _ => find?_argument apart, fun _ _ => find?_state apart,
    find?_extraName apart, find?_stateName apart,
    restoredState?_filled apart holds rfl, ?_⟩
  · rw [applyState_items strategy holds, update,
      ← merge_stateFields apart]
    rfl
  · rw [filledFields, List.map_append, Entries.keys_positioned,
      keys_stateFields, ← List.map_append, ← List.append_assoc]

/-- A type whose records have two names for arguments and one for a state. -/
def positionalType : TypeRef where
  module := Text.ofString "m"
  name := Text.ofString "N"
  strategy := .extension (Text.ofString "m.N") .plain
    [Text.ofString "a", Text.ofString "b"] [Text.ofString "s"]

/-- One argument is missing, and the state is a list of two items more than there
are names. -/
theorem Record.applyState_positional_list :
    let heap : Heap := ⟨#[.list #[.int 5, .int 6, .int 7]], 0⟩
    NamesApart [Text.ofString "a", Text.ofString "b"] [Text.ofString "s"] ∧
      stateItems? heap (.object 0) = some [.int 5, .int 6, .int 7] ∧
      ∃ made : Record, ∃ fields,
        positionalType.instantiate (Call.ofArgs [.int 1]) heap =
          .ok (heap.alloc (.record made)) ∧
        made.applyState heap (.object 0) =
          .ok { made with fields := fields } ∧
        made.args = [.int 1] ∧
        Entries.find? (.str (Text.ofString "a")) fields = some (.int 1) ∧
        Entries.find? (.str (Text.ofString "b")) fields = none ∧
        Entries.find? (.str (Text.ofString "s")) fields = some (.int 5) ∧
        Entries.find? (.str (Text.ofString "extra_state")) fields =
          some (.tuple [.int 6, .int 7]) := by
  intro heap
  have apart : NamesApart [Text.ofString "a", Text.ofString "b"]
      [Text.ofString "s"] := ⟨by decide, by decide, by decide⟩
  have holds : stateItems? heap (.object 0) =
      some [.int 5, .int 6, .int 7] := rfl
  have strategy : positionalType.strategy =
      .extension (Text.ofString "m.N") .plain
        [Text.ofString "a", Text.ofString "b"] [Text.ofString "s"] := rfl
  obtain ⟨made, instantiated, kept⟩ :=
    applyState_positional strategy apart [.int 1]
  obtain ⟨fields, applied, args, arguments, states, extra, _⟩ :=
    kept heap (.object 0) _ holds
  exact ⟨apart, holds, made, fields, instantiated heap, applied, args,
    arguments 0 _ rfl, arguments 1 _ rfl, states 0 _ rfl, extra⟩

end PickleGraph
