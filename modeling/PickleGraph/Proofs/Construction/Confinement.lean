import PickleGraph.Construction.State
import PickleGraph.Proofs.Heap.Making
import PickleGraph.Proofs.Registry.Governed

/-!
# Construction in a confined heap

Literals, instances and the states of records mention what their construction
was given and new objects.
-/

namespace PickleGraph

open Actions

variable {start heap : Heap} {held : List Address}

/-! ## Literals -/

namespace Literal

open Heap

theorem gives_numberValue (number : Option Number) :
    Gives start held Value.addresses heap (numberValue number heap) := by
  unfold numberValue
  split
  · exact .same (List.nil_subset _)
  · refine .ok fun confines => ?_
    rw [addresses_float]
    exact confines.of_objects_eq (objects_float heap _)
  · refine .ok fun confines => ?_
    rw [addresses_complex]
    exact confines.of_objects_eq (objects_complex heap _ _)
  · exact .error

theorem gives_complexValue
    (combine : Binary64 → Binary64 → Binary64) (left right : Literal) :
    Gives start held Value.addresses heap
      (complexValue combine left right heap) := by
  unfold complexValue
  split
  · refine .bind fun real _ => .ok fun confines => ?_
    rw [addresses_complex]
    exact confines.of_objects_eq (objects_complex heap _ _)
  · exact .error

theorem gives_setValue {members : List Value}
    (member : Values.addresses members ⊆ held) :
    Gives start held Value.addresses heap (setValue members heap) := by
  exact .bind fun _ _ => .alloc
    (List.Subset.trans (Members.addresses_merge_nil members) member)

mutual

theorem gives_evaluate (literal : Literal) (held : List Address)
    (heap : Heap) :
    Gives start held Value.addresses heap (evaluate literal heap) := by
  cases literal with
  | noneValue | ellipsis | bool | str | bytes => exact .same (List.nil_subset _)
  | tuple items =>
      rw [evaluate]
      refine .seq (gives_evaluateAll items held heap) fun values heap => ?_
      refine .same ?_
      rw [Value.addresses_tuple]
      exact List.subset_append_left _ _
  | list items =>
      rw [evaluate]
      refine .seq (gives_evaluateAll items held heap) fun values heap => ?_
      exact .alloc (List.subset_append_left _ _)
  | set members =>
      rw [evaluate]
      exact .seq (gives_evaluateAll members held heap) fun values heap =>
        gives_setValue (List.subset_append_left _ _)
  | dict entries =>
      rw [evaluate]
      refine .seq (gives_evaluateEntries entries held heap)
        fun made heap => .bind fun _ _ => .alloc ?_
      exact List.Subset.trans (Entries.addresses_merge_nil made)
        (List.subset_append_left _ _)
  | emptySet => exact .alloc (List.nil_subset _)
  | setType => exact .error
  | sum left right => exact gives_complexValue _ left right
  | difference left right => exact gives_complexValue _ left right
  | int | float | imaginary | plus | minus =>
      simp only [evaluate]
      exact gives_numberValue _

theorem gives_evaluateAll (items : List Literal) (held : List Address)
    (heap : Heap) :
    Gives start held Values.addresses heap
      (evaluate.evaluateAll items heap) := by
  cases items with
  | nil => exact .same (List.nil_subset _)
  | cons item rest =>
      rw [evaluate.evaluateAll]
      refine .seq (gives_evaluate item held heap) fun value heap => ?_
      refine .seq (gives_evaluateAll rest _ heap) fun values heap => ?_
      exact .same (by simp)

theorem gives_evaluateEntries (entries : List (Literal × Literal))
    (held : List Address) (heap : Heap) :
    Gives start held Entries.addresses heap
      (evaluate.evaluateEntries entries heap) := by
  cases entries with
  | nil => exact .same (List.nil_subset _)
  | cons entry rest =>
      obtain ⟨key, value⟩ := entry
      rw [evaluate.evaluateEntries]
      refine .seq (gives_evaluate key held heap) fun key heap => ?_
      refine .seq (gives_evaluate value _ heap) fun value heap => ?_
      refine .seq (gives_evaluateEntries rest _ heap) fun entries heap => ?_
      refine .same ?_
      rw [Entries.addresses_cons]
      grind

end

end Literal

/-! ## Calls -/

namespace Call

def addresses (call : Call) : List Address :=
  Values.addresses call.args ++ Entries.addresses call.named

theorem addresses_onlyArg? {call : Call} {value : Value}
    (only : call.onlyArg? = .ok (some value)) :
    value.addresses ⊆ call.addresses := by
  obtain ⟨args, positional, only⟩ := except_bind_eq_ok_iff.mp only
  have isArgs : args = call.args := by
    unfold Call.positional at positional
    split at positional
    · cases positional
      rfl
    · cases positional
  subst isArgs
  split at only
  · cases only
  · next other single =>
      cases only
      unfold addresses
      rw [single]
      simp
  · cases only

theorem addresses_valueFor {call : Call} {index : Nat} {name : String}
    {value : Value} (found : call.valueFor index name = .ok (some value)) :
    value.addresses ⊆ call.addresses := by
  unfold valueFor at found
  split at found
  · cases found
  · next here _ =>
      cases found
      have inArgs := Values.subset_of_mem (List.mem_of_getElem? here)
      exact List.Subset.trans inArgs (List.subset_append_left _ _)
  · have isNamed := Except.ok.inj found
    have inNamed := Entries.subset_of_find? isNamed
    exact List.Subset.trans inNamed (List.subset_append_right _ _)

theorem addresses_bind {call : Call} {names : List String} {required : Nat}
    {values : List (Option Value)}
    (bound : call.bind names required = .ok values) (index : Nat)
    {missing : Value} (bare : missing.addresses = []) :
    ((values[index]?.bind id).getD missing).addresses ⊆ call.addresses := by
  have known : ∀ {value : Value}, some value ∈ values →
      value.addresses ⊆ call.addresses := by
    intro value member
    unfold Call.bind at bound
    obtain ⟨_, _, bound⟩ := except_bind_eq_ok_iff.mp bound
    dsimp only at bound
    split at bound
    · cases bound
    · obtain ⟨found, success, bound⟩ := except_bind_eq_ok_iff.mp bound
      split at bound
      · cases bound
        obtain ⟨⟨place, name⟩, _, isFound⟩ :=
          exists_of_mem_mapM success member
        exact addresses_valueFor isFound
      · cases bound
  cases found : values[index]?.bind id with
  | none =>
      rw [Option.getD_none, bare]
      exact List.nil_subset _
  | some value =>
      obtain ⟨other, here, isSame⟩ := Option.bind_eq_some_iff.mp found
      have isValue : other = some value := isSame
      subst isValue
      exact known (List.mem_of_getElem? here)

end Call

/-! ## Constructors -/

namespace Heap.Confines

/-- The entries of a mapping in hand. -/
theorem entries {value : Value} {entries : List (Value × Value)}
    (confines : start.Confines held heap) (member : value.addresses ⊆ held)
    (found : heap.entries? value = some entries) :
    start.Confines (Entries.addresses entries ++ held) heap := by
  unfold Heap.entries? at found
  split at found
  · next address =>
      split at found
      · next here =>
          cases found
          rw [Value.addresses_object] at member
          have exposed := confines.expose (member List.mem_cons_self)
          rw [here] at exposed
          exact exposed
      · cases found
  · cases found

/-- The record that a value in hand refers to. -/
theorem record {value : Value} {address : Address} {record : Record}
    (confines : start.Confines held heap) (member : value.addresses ⊆ held)
    (found : heap.record? value = some (address, record)) :
    start.Confines (record.addresses ++ held) heap := by
  unfold Heap.record? at found
  split at found
  · next place =>
      split at found
      · next here =>
          cases found
          rw [Value.addresses_object] at member
          have exposed := confines.expose (member List.mem_cons_self)
          rw [here] at exposed
          exact exposed
      · cases found
  · cases found

end Heap.Confines

namespace Constructor

open Heap

theorem gives_itemsOf {check : Value → Except Refusal Unit} {call : Call}
    (member : call.addresses ⊆ held) :
    Gives start held Values.addresses heap (itemsOf check call heap) := by
  refine .bind fun only isOnly => ?_
  split
  · exact .same (List.nil_subset _)
  · exact gives_iterateChecked
      (List.Subset.trans (Call.addresses_onlyArg? isOnly) member)

theorem gives_membersOf {call : Call} (member : call.addresses ⊆ held) :
    Gives start held Values.addresses heap (membersOf call heap) := by
  refine .seq (gives_itemsOf member) fun items heap => .same ?_
  exact List.Subset.trans (Members.addresses_merge_nil items)
    (List.subset_append_left _ _)

/-- Entries are gathered from one value after another. -/
theorem gives_foldlM
    {step : List (Value × Value) × Heap → Value →
      Except Refusal (List (Value × Value) × Heap)}
    (gives : ∀ (made : List (Value × Value)) (held : List Address)
      (heap : Heap) (item : Value), item.addresses ⊆ held →
      Entries.addresses made ⊆ held →
      Gives start held Entries.addresses heap (step (made, heap) item))
    {items : List Value} (made : List (Value × Value))
    (held : List Address) (heap : Heap)
    (member : Values.addresses items ⊆ held)
    (shown : Entries.addresses made ⊆ held) :
    Gives start held Entries.addresses heap
      (items.foldlM step (made, heap)) := by
  induction items generalizing made held heap with
  | nil => exact .same shown
  | cons item rest inductionHypothesis =>
      rw [Values.addresses_cons] at member
      obtain ⟨isItem, isRest⟩ := List.append_subset.mp member
      rw [List.foldlM_cons]
      exact Gives.seq (gives made held heap item isItem shown)
        fun entries heap => inductionHypothesis entries _ heap
          (List.Subset.trans isRest (List.subset_append_right _ _))
          (List.subset_append_left _ _)

theorem gives_entriesOfPairs {pairs : List Value}
    (member : Values.addresses pairs ⊆ held) :
    Gives start held Entries.addresses heap (entriesOfPairs pairs heap) := by
  refine gives_foldlM (fun made held heap pair isPair shown => ?_) [] held
    heap member (List.nil_subset _)
  refine Gives.seq (gives_iterate isPair) fun items heap => ?_
  dsimp only
  split
  · next key value =>
      refine .bind fun _ _ => .same ?_
      have inserted := Entries.addresses_insert key value made
      simp only [Values.addresses_cons, Values.addresses_nil]
      grind
  · exact .error

theorem gives_entriesOfValue {value : Value}
    (member : value.addresses ⊆ held) :
    Gives start held Entries.addresses heap (entriesOfValue value heap) := by
  unfold entriesOfValue
  split
  · next isMapping => exact .ok fun confines => confines.entries member isMapping
  · next isRecord =>
      refine .ok fun confines => (confines.record member isRecord).mono ?_
      unfold Record.addresses
      grind
  · exact .seq (gives_iterate member) fun pairs heap =>
      (gives_entriesOfPairs (List.subset_append_left _ _))

theorem gives_entriesOfArgs {args : List Value}
    (member : Values.addresses args ⊆ held) :
    Gives start held Entries.addresses heap (entriesOfArgs heap args) := by
  unfold entriesOfArgs
  split
  · exact .same (List.nil_subset _)
  · exact gives_entriesOfValue (by simpa using member)
  · exact .error

theorem gives_entriesOfCall {call : Call} (member : call.addresses ⊆ held) :
    Gives start held Entries.addresses heap (entriesOfCall call heap) := by
  obtain ⟨inArgs, inNamed⟩ := List.append_subset.mp member
  refine .seq (gives_entriesOfArgs inArgs) fun entries heap => .same ?_
  have merged := Entries.addresses_merge entries call.named
  grind

theorem gives_ofLentBuffer {buffer type shape order : Value}
    (member : shape.addresses ⊆ held) :
    Gives start held (·.content.addresses) heap
      (Payload.ofLentBuffer buffer type shape order heap) := by
  unfold Payload.ofLentBuffer
  refine .bind fun type _ => .bind fun buffer _ => ?_
  dsimp only
  split
  · next result rebuilt =>
      have gives : Gives start held (fun array : NdArray =>
          array.content.addresses) heap (.ok (ε := Refusal) result) := by
        rw [← rebuilt]
        refine .bind fun line lent => ?_
        refine .seq (gives_iterate member) fun extents heap => ?_
        refine .bind fun firstFastest _ => .bind fun shape _ =>
          .bind fun array reshaped => .same ?_
        have inLine := NdArray.addresses_reshape reshaped
        rw [addresses_lend lent] at inLine
        exact List.Subset.trans inLine (List.nil_subset _)
      exact .ok fun confines => gives confines _ _ rfl
  · exact .bind fun _ _ => .error
  · exact .bind fun _ _ => .error
  · exact .error

theorem gives_arrayOfBuffer {call : Call} (member : call.addresses ⊆ held) :
    Gives start held Value.addresses heap (arrayOfBuffer call heap) := by
  refine .bind fun values bound => ?_
  have bare : Value.none.addresses = [] := rfl
  have shape := Call.addresses_bind (mapError_eq_ok_iff.mp bound) 2 bare
  dsimp only
  exact .seq (gives_ofLentBuffer (List.Subset.trans shape member))
    fun array heap => .alloc (List.subset_append_left _ _)

theorem addresses_decodeCarrier {call : Call} {value : Value}
    (decoded : decodeCarrier call heap = .ok value) :
    value.addresses = [] := by
  obtain ⟨values, bound, decoded⟩ := except_bind_eq_ok_iff.mp decoded
  dsimp only at decoded
  split at decoded
  · obtain ⟨quoted, _, decoded⟩ := except_bind_eq_ok_iff.mp decoded
    cases decoded
  · split at decoded
    · next content isBytes =>
        cases decoded
        rw [← Value.addresses_plain, isBytes]
        rfl
    · obtain ⟨encoded, _, decoded⟩ := except_bind_eq_ok_iff.mp decoded
      cases decoded
      rfl
    · cases decoded

/-- A constructor gives what its call passes to it and new objects. -/
theorem gives_apply
    {instantiate : TypeRef → Heap → Except Failure (Value × Heap)}
    (inner : ∀ reference,
      Gives start held Value.addresses heap (instantiate reference heap))
    (constructor : Constructor) {call : Call}
    (member : call.addresses ⊆ held) :
    Gives start held Value.addresses heap
      (apply instantiate constructor call heap) := by
  refine .bind fun _ _ => ?_
  cases constructor with
  | object =>
      refine .bind fun args _ => ?_
      split
      · exact .alloc (List.nil_subset _)
      · exact .error
  | set =>
      exact .seq (.mapError _ (gives_membersOf member)) fun members heap =>
        .alloc (List.subset_append_left _ _)
  | frozenset =>
      refine .seq (.mapError _ (gives_membersOf member)) fun members heap =>
        .same ?_
      rw [Value.addresses_frozenset]
      exact List.subset_append_left _ _
  | list =>
      exact .seq (.mapError _ (gives_itemsOf member)) fun items heap =>
        .alloc (List.subset_append_left _ _)
  | tuple =>
      refine .seq (.mapError _ (gives_itemsOf member)) fun items heap =>
        .same ?_
      rw [Value.addresses_tuple]
      exact List.subset_append_left _ _
  | dict | orderedDict =>
      exact .seq (.mapError _ (gives_entriesOfCall member))
        fun entries heap => .alloc (List.subset_append_left _ _)
  | bytes => exact .bind fun _ _ => .same (List.nil_subset _)
  | bytearray => exact .bind fun _ _ => .alloc (List.nil_subset _)
  | complex =>
      refine .bind fun parts _ => .ok fun confines => ?_
      rw [addresses_complex]
      exact confines.of_objects_eq (objects_complex heap _ _)
  | encode =>
      refine .bind fun value decoded => .same ?_
      rw [addresses_decodeCarrier decoded]
      exact List.nil_subset _
  | reconstructor => exact .bind fun reference _ => inner reference
  | fromBuffer => exact gives_arrayOfBuffer member

end Constructor

/-! ## Instances -/

namespace TypeRef

open Heap

theorem gives_newRecord (reference : TypeRef) (kind : RecordKind)
    {call : Call} (member : call.addresses ⊆ held) :
    Gives (ε := Failure) start held Value.addresses heap
      (.ok (reference.newRecord kind call heap)) := by
  obtain ⟨inArgs, inNamed⟩ := List.append_subset.mp member
  have positional : ∀ names : List Text,
      Entries.addresses ((names.map Value.str).zip call.args) ⊆ held := by
    intro names address mentioned
    obtain ⟨⟨name, value⟩, isEntry, mentioned⟩ := List.mem_flatMap.mp mentioned
    obtain ⟨isName, isArg⟩ := List.of_mem_zip isEntry
    obtain ⟨text, _, rfl⟩ := List.mem_map.mp isName
    exact inArgs (Values.subset_of_mem isArg
      (by simpa [Value.addresses] using mentioned))
  have initial : Entries.addresses (reference.strategy.initialFields call) ⊆
      held := by
    have first : ∀ pairs, Entries.addresses pairs ⊆ held →
        Entries.addresses
          (Entries.merge (Entries.merge [] pairs) call.named) ⊆ held := by
      intro pairs inHand
      have merged := Entries.addresses_merge (Entries.merge [] pairs)
        call.named
      have started := Entries.addresses_merge_nil pairs
      grind
    unfold Strategy.initialFields
    dsimp only
    split
    · exact first _ (positional _)
    · exact first _ (List.nil_subset _)
  exact .alloc (List.append_subset.mpr ⟨inArgs, initial⟩)

theorem gives_instantiateWith
    {inner : TypeRef → Heap → Except Failure (Value × Heap)}
    (innerGives : ∀ reference,
      Gives start held Value.addresses heap (inner reference heap))
    (reference : TypeRef) {call : Call} (member : call.addresses ⊆ held) :
    Gives start held Value.addresses heap
      (reference.instantiateWith inner call heap) := by
  unfold instantiateWith
  split
  · exact Constructor.gives_apply innerGives _ member
  · exact gives_newRecord reference _ member
  · exact gives_newRecord reference _ member
  · exact gives_newRecord reference _ member

theorem gives_instantiate (reference : TypeRef) {call : Call}
    (member : call.addresses ⊆ held) :
    Gives start held Value.addresses heap
      (reference.instantiate call heap) := by
  refine gives_instantiateWith (fun asked => ?_) reference member
  exact gives_instantiateWith (fun _ => .error) asked (List.nil_subset _)

end TypeRef

/-- An instance mentions what its call passes and new objects. -/
theorem Heap.gives_instantiate (type : Value) {call : Call}
    (member : call.addresses ⊆ held) :
    Gives start held Value.addresses heap (heap.instantiate type call) := by
  unfold Heap.instantiate
  split
  · exact .mapError _ (TypeRef.gives_instantiate _ member)
  · exact .error

/-! ## States -/

namespace Record

theorem addresses_setField (record : Record) (name : Text) (value : Value) :
    (record.setField name value).addresses ⊆
      record.addresses ++ value.addresses := by
  have inserted := Entries.addresses_insert (.str name) value record.fields
  have bare : (Value.str name).addresses = [] := rfl
  rw [bare] at inserted
  unfold addresses setField
  grind

theorem addresses_update (record : Record)
    (entries : List (Value × Value)) :
    (record.update entries).addresses ⊆
      record.addresses ++ Entries.addresses entries := by
  have merged := Entries.addresses_merge record.fields entries
  unfold addresses update
  grind

theorem addresses_fillPositions (record : Record) (names : List Text)
    (values : List Value) :
    (record.fillPositions names values).addresses ⊆
      record.addresses ++ Values.addresses values := by
  have filled : ∀ (pairs : List (Text × Value)) (record : Record),
      (pairs.foldl (fun record pair => record.setField pair.1 pair.2)
        record).addresses ⊆
      record.addresses ++ Values.addresses (pairs.map (·.2)) := by
    intro pairs
    induction pairs with
    | nil => simp
    | cons pair rest inductionHypothesis =>
        intro record
        have first := addresses_setField record pair.1 pair.2
        have later := inductionHypothesis (record.setField pair.1 pair.2)
        simp only [List.foldl_cons, List.map_cons, Values.addresses_cons]
        grind
  have zipped : Values.addresses ((names.zip values).map (·.2)) ⊆
      Values.addresses values := by
    refine Values.addresses_mono fun value member => ?_
    obtain ⟨pair, isPair, rfl⟩ := List.mem_map.mp member
    exact (List.of_mem_zip isPair).2
  have start := filled (names.zip values) record
  unfold fillPositions
  dsimp only
  split
  · have extra := addresses_setField
      ((names.zip values).foldl
        (fun record pair => record.setField pair.1 pair.2) record)
      (Text.ofString "extra_state")
      (.tuple (values.drop names.length))
    have dropped : Values.addresses (values.drop names.length) ⊆
        Values.addresses values :=
      Values.addresses_mono (List.drop_subset _ _)
    rw [Value.addresses_tuple] at extra
    grind
  · grind

theorem confines_mergeMapping {record after : Record} {state : Value}
    (confines : start.Confines held heap)
    (inHand : record.addresses ⊆ held) (member : state.addresses ⊆ held)
    (success : record.mergeMapping heap state = .ok after) :
    start.Confines (after.addresses ++ held) heap := by
  obtain ⟨isTrue, _, success⟩ := except_bind_eq_ok_iff.mp success
  split at success
  · split at success
    · next entries isMapping =>
        cases success
        have updated := addresses_update record entries
        exact (confines.entries member isMapping).mono (by grind)
    · cases success
  · cases success
    exact confines.mono (by grind)

/-- The slots are merged first, if there are any. -/
theorem confines_mergeState {record after : Record} {state : Value}
    (confines : start.Confines held heap)
    (inHand : record.addresses ⊆ held) (member : state.addresses ⊆ held)
    (success : record.mergeState heap state = .ok after) :
    start.Confines (after.addresses ++ held) heap := by
  fun_induction mergeState heap record state generalizing after with
  | case1 state slots isMapping inductionHypothesis =>
      simp only [Value.addresses_tuple, Values.addresses_cons,
        Values.addresses_nil, List.append_nil] at member
      obtain ⟨inState, inSlots⟩ := List.append_subset.mp member
      obtain ⟨isTrue, _, success⟩ := except_bind_eq_ok_iff.mp success
      split at success
      · obtain ⟨middle, merged, rest⟩ := except_bind_eq_ok_iff.mp success
        have first := inductionHypothesis inSlots merged
        have second := confines_mergeMapping first
          (List.subset_append_left _ _)
          (List.Subset.trans inState (List.subset_append_right _ _)) rest
        exact second.mono (by grind)
      · exact confines_mergeMapping confines inHand inState success
  | case2 => exact confines_mergeMapping confines inHand member success
  | case3 => exact confines_mergeMapping confines inHand member success

theorem confines_stateItems {state : Value} {items : List Value}
    (confines : start.Confines held heap) (member : state.addresses ⊆ held)
    (found : stateItems? heap state = some items) :
    start.Confines (Values.addresses items ++ held) heap := by
  unfold stateItems? at found
  split at found
  · cases found
    rw [Value.addresses_tuple] at member
    exact confines.mono (List.append_subset.mpr
      ⟨member, List.Subset.refl _⟩)
  · next address =>
      split at found
      · next here =>
          cases found
          rw [Value.addresses_object] at member
          have exposed := confines.expose (member List.mem_cons_self)
          rw [here] at exposed
          exact exposed
      · cases found
  · cases found

/-- A record with a state mentions what it did and what the state does. -/
theorem confines_applyState {record after : Record} {state : Value}
    (confines : start.Confines held heap)
    (inHand : record.addresses ⊆ held) (member : state.addresses ⊆ held)
    (success : record.applyState heap state = .ok after) :
    start.Confines (after.addresses ++ held) heap := by
  unfold applyState at success
  split at success
  · next names _ =>
    split at success
    · next entries isMapping =>
        cases success
        have updated := addresses_update record entries
        exact (confines.entries member isMapping).mono (by grind)
    · next values _ isSequence =>
        have items := confines_stateItems confines member isSequence
        split at success
        · cases success
          have changed := addresses_setField record (Text.ofString "state")
            state
          exact confines.mono (by grind)
        · cases success
          have filled := addresses_fillPositions record names values
          exact items.mono (by grind)
    · cases success
  · exact confines_mergeState confines inHand member success

end Record

end PickleGraph
