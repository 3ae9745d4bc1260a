import PickleGraph.Construction.Instance
import PickleGraph.Construction.State
import PickleGraph.Proofs.Names.Dtype

/-!
# Construction under other names

Literals, the constructors of plain values and the states of records are the
same under other names of types.
-/

namespace PickleGraph

open Actions

variable (naming : Naming)

theorem Heap.carries_alloc {ε : Type} (heap : Heap) {object : Object}
    (unnamed : ∀ key?, object.named key? = object) :
    Carries (Heap.carry naming) (.ok (heap.alloc object) : Except ε _)
      (.ok ((heap.renamed naming).alloc object) : Except ε _) := by
  rw [Heap.carry_alloc naming heap unnamed]
  exact .ok _

/-! ## Literals -/

namespace Literal

open Heap

theorem carries_numberValue (number : Option Number) (heap : Heap) :
    Carries (carry naming) (numberValue number heap)
      (numberValue number (heap.renamed naming)) := by
  unfold numberValue
  split
  · exact .ok _
  · rw [carry_float]
    exact .ok _
  · rw [carry_complex]
    exact .ok _
  · exact .error _ _

theorem carries_complexValue
    (combine : Binary64 → Binary64 → Binary64) (left right : Literal)
    (heap : Heap) :
    Carries (carry naming) (complexValue combine left right heap)
      (complexValue combine left right (heap.renamed naming)) := by
  unfold complexValue
  split
  · refine .bind (.refl _) fun real => ?_
    rw [carry_complex]
    exact .ok _
  · exact .error _ _

theorem carries_setValue (members : List Value) (heap : Heap) :
    Carries (carry naming) (setValue members heap)
      (setValue members (heap.renamed naming)) := by
  unfold setValue
  rw [hashable_renamed]
  refine .bind (.refl _) fun _ => ?_
  exact carries_alloc naming heap fun _ => rfl

mutual

theorem carries_evaluate (literal : Literal) (heap : Heap) :
    Carries (carry naming) (evaluate literal heap)
      (evaluate literal (heap.renamed naming)) := by
  cases literal with
  | noneValue | ellipsis | bool | str | bytes => exact .ok _
  | tuple items =>
      rw [evaluate, evaluate]
      refine .bind (carries_evaluateAll items heap) fun ⟨values, heap⟩ => ?_
      exact .ok (Value.tuple values, heap)
  | list items =>
      rw [evaluate, evaluate]
      refine .bind (carries_evaluateAll items heap) fun ⟨values, heap⟩ => ?_
      exact carries_alloc naming heap fun _ => rfl
  | set members =>
      rw [evaluate, evaluate]
      refine .bind (carries_evaluateAll members heap) fun ⟨values, heap⟩ => ?_
      exact carries_setValue naming values heap
  | dict entries =>
      rw [evaluate, evaluate]
      refine .bind (carries_evaluateEntries entries heap)
        fun ⟨values, heap⟩ => ?_
      dsimp only [carry]
      rw [hashable_renamed]
      refine .bind (.refl _) fun _ => ?_
      exact carries_alloc naming heap fun _ => rfl
  | emptySet => exact carries_alloc naming heap fun _ => rfl
  | setType => exact .error _ _
  | sum left right => exact carries_complexValue naming _ left right heap
  | difference left right => exact carries_complexValue naming _ left right heap
  | int | float | imaginary | plus | minus =>
      simp only [evaluate]
      exact carries_numberValue naming _ heap

theorem carries_evaluateAll (items : List Literal) (heap : Heap) :
    Carries (carry naming) (evaluate.evaluateAll items heap)
      (evaluate.evaluateAll items (heap.renamed naming)) := by
  cases items with
  | nil => exact .ok ([], heap)
  | cons item rest =>
      rw [evaluate.evaluateAll, evaluate.evaluateAll]
      refine .bind (carries_evaluate item heap) fun ⟨value, heap⟩ => ?_
      refine .bind (carries_evaluateAll rest heap) fun ⟨values, heap⟩ => ?_
      exact .ok (value :: values, heap)

theorem carries_evaluateEntries (entries : List (Literal × Literal))
    (heap : Heap) :
    Carries (carry naming) (evaluate.evaluateEntries entries heap)
      (evaluate.evaluateEntries entries (heap.renamed naming)) := by
  cases entries with
  | nil => exact .ok ([], heap)
  | cons entry rest =>
      obtain ⟨key, value⟩ := entry
      rw [evaluate.evaluateEntries, evaluate.evaluateEntries]
      refine .bind (carries_evaluate key heap) fun ⟨key, heap⟩ => ?_
      refine .bind (carries_evaluate value heap) fun ⟨value, heap⟩ => ?_
      refine .bind (carries_evaluateEntries rest heap) fun ⟨others, heap⟩ => ?_
      exact .ok ((key, value) :: others, heap)

end

end Literal

/-! ## Byte strings and numbers -/

@[simp] theorem Octets.ofValue_renamed (value : Value) (heap : Heap) :
    Octets.ofValue value (heap.renamed naming) =
      Octets.ofValue value heap := by
  have sized : Octets.sizeOfValue? value (heap.renamed naming) =
      Octets.sizeOfValue? value heap := by
    unfold Octets.sizeOfValue?
    rw [Heap.array?_renamed]
  unfold Octets.ofValue
  rw [sized, Heap.buffer?_renamed]
  simp only [Heap.carry_iterateChecked]
  split
  · rfl
  · split
    · rfl
    · cases heap.iterateChecked _ value <;> rfl

@[simp] theorem Octets.ofCall_renamed (typeName : String) (call : Call)
    (heap : Heap) :
    Octets.ofCall typeName call (heap.renamed naming) =
      Octets.ofCall typeName call heap := by
  unfold Octets.ofCall
  simp only [Octets.ofValue_renamed]

@[simp] theorem Complex.ofCall_renamed (call : Call) (heap : Heap) :
    Complex.ofCall call (heap.renamed naming) =
      Complex.ofCall call heap := by
  have parts : Complex.partsOfValue (heap.renamed naming) =
      Complex.partsOfValue heap := by
    funext value
    unfold Complex.partsOfValue Complex.numberOf?
    rw [Heap.array?_renamed]
  unfold Complex.ofCall
  rw [parts]

/-! ## States -/

namespace Record

variable (key? : Option TypeKey)

theorem update_named (record : Record) (entries : List (Value × Value)) :
    (record.named key?).update entries =
      (record.update entries).named key? := by
  cases key? <;> rfl

theorem setField_named (record : Record) (name : Text) (value : Value) :
    (record.named key?).setField name value =
      (record.setField name value).named key? := by
  cases key? <;> rfl

theorem mergeMapping_renamed (heap : Heap) (record : Record)
    (state : Value) :
    (record.named key?).mergeMapping (heap.renamed naming) state =
      (record.mergeMapping heap state).map (·.named key?) := by
  unfold mergeMapping
  rw [Heap.isTrue_renamed, Heap.entries?_renamed, Heap.typeName_renamed,
    target_named]
  cases heap.isTrue state with
  | error refusal => rfl
  | ok isTrue =>
      cases isTrue with
      | false => rfl
      | true =>
          cases heap.entries? state with
          | none => rfl
          | some entries =>
              exact congrArg Except.ok (update_named key? record entries)

theorem isMappingOrNone_renamed (heap : Heap) (state : Value) :
    mergeState.isMappingOrNone (heap.renamed naming) state =
      mergeState.isMappingOrNone heap state := by
  cases state <;> simp [mergeState.isMappingOrNone]

theorem mergeState_renamed (heap : Heap) (record : Record) (state : Value) :
    (record.named key?).mergeState (heap.renamed naming) state =
      (record.mergeState heap state).map (·.named key?) := by
  rw [mergeState.eq_def, mergeState.eq_def heap record]
  split
  · next state slots =>
      have merged := mergeState_renamed heap record slots
      rw [isMappingOrNone_renamed, Heap.isTrue_renamed]
      split
      · cases heap.isTrue slots with
        | error refusal => rfl
        | ok isTrue =>
            cases isTrue with
            | false => exact mergeMapping_renamed naming key? heap record state
            | true =>
                show (do
                  let record ← (record.named key?).mergeState
                    (heap.renamed naming) slots
                  record.mergeMapping (heap.renamed naming) state) =
                  (do
                    let record ← record.mergeState heap slots
                    record.mergeMapping heap state :
                      Except Failure Record).map (·.named key?)
                rw [merged]
                cases record.mergeState heap slots with
                | error failure => rfl
                | ok merged =>
                    exact mergeMapping_renamed naming key? heap merged state
      · exact mergeMapping_renamed naming key? heap record _
  · exact mergeMapping_renamed naming key? heap record _
termination_by state
decreasing_by
  subst_vars
  simp only [Value.tuple.sizeOf_spec, List.cons.sizeOf_spec]
  omega

theorem fillPositions_named (record : Record) (names : List Text)
    (values : List Value) :
    (record.named key?).fillPositions names values =
      (record.fillPositions names values).named key? := by
  have filled : ∀ (pairs : List (Text × Value)) (record : Record),
      pairs.foldl (fun record pair => record.setField pair.1 pair.2)
          (record.named key?) =
        (pairs.foldl (fun record pair => record.setField pair.1 pair.2)
          record).named key? := by
    intro pairs
    induction pairs with
    | nil => exact fun _ => rfl
    | cons pair rest inductionHypothesis =>
        intro record
        have first := setField_named key? record pair.1 pair.2
        rw [List.foldl_cons, List.foldl_cons, first]
        exact inductionHypothesis _
  have filled := filled (names.zip values) record
  unfold fillPositions
  dsimp only at filled ⊢
  rw [filled]
  split
  · exact setField_named key? _ _ _
  · rfl

/-- A record takes a state whatever it is called. -/
theorem applyState_renamed (heap : Heap) (record : Record) (state : Value) :
    (record.named key?).applyState (heap.renamed naming) state =
      (record.applyState heap state).map (·.named key?) := by
  have items : stateItems? (heap.renamed naming) state =
      stateItems? heap state := by
    cases state with
    | object address =>
        simp only [stateItems?, Heap.get_renamed]
        cases heap.get address <;> rfl
    | _ => rfl
  unfold applyState
  rw [strategy_named, items, Heap.entries?_renamed, Heap.typeName_renamed,
    target_named]
  split
  · split
    · exact congrArg Except.ok (update_named key? record _)
    · split
      · exact congrArg Except.ok (setField_named key? record _ _)
      · exact congrArg Except.ok (fillPositions_named key? record _ _)
    · rfl
  · exact mergeState_renamed naming key? heap record state

end Record

/-! ## Constructors -/

namespace Constructor

open Heap

theorem carries_itemsOf (check : Value → Except Refusal Unit) (call : Call)
    (heap : Heap) :
    Carries (carry naming) (itemsOf check call heap)
      (itemsOf check call (heap.renamed naming)) := by
  unfold itemsOf
  refine .bind (.refl _) fun only => ?_
  cases only with
  | none => exact .ok ([], heap)
  | some value =>
      exact .of_map (carry_iterateChecked naming heap check value)

theorem carries_membersOf (call : Call) (heap : Heap) :
    Carries (carry naming) (membersOf call heap)
      (membersOf call (heap.renamed naming)) := by
  unfold membersOf
  rw [hashable_renamed]
  refine .bind (carries_itemsOf naming _ call heap) fun ⟨items, heap⟩ => ?_
  exact .ok (Members.merge [] items, heap)

theorem carries_entriesOfPairs (pairs : List Value) (heap : Heap) :
    Carries (carry naming) (entriesOfPairs pairs heap)
      (entriesOfPairs pairs (heap.renamed naming)) := by
  refine .foldlM (fun ⟨entries, heap⟩ pair => ?_) pairs ([], heap)
  refine .bind (carries_iterate naming heap pair) fun ⟨items, heap⟩ => ?_
  dsimp only [carry]
  split
  · rw [hashable_renamed]
    refine .bind (.refl _) fun _ => ?_
    exact .ok (Entries.insert _ _ entries, heap)
  · exact .error _ _

theorem carries_entriesOfValue (value : Value) (heap : Heap) :
    Carries (carry naming) (entriesOfValue value heap)
      (entriesOfValue value (heap.renamed naming)) := by
  unfold entriesOfValue
  rw [entries?_renamed, record?_renamed]
  cases heap.entries? value with
  | some entries => exact .ok (entries, heap)
  | none =>
      cases heap.record? value with
      | some found =>
          dsimp only [Option.map_some]
          rw [Record.fields_named]
          exact .ok (found.2.fields, heap)
      | none =>
          refine .bind (carries_iterate naming heap value)
            fun ⟨pairs, heap⟩ => ?_
          exact carries_entriesOfPairs naming pairs heap

theorem carries_entriesOfCall (call : Call) (heap : Heap) :
    Carries (carry naming) (entriesOfCall call heap)
      (entriesOfCall call (heap.renamed naming)) := by
  have ofArgs : Carries (carry naming) (entriesOfArgs heap call.args)
      (entriesOfArgs (heap.renamed naming) call.args) := by
    unfold entriesOfArgs
    split
    · exact .ok ([], heap)
    · exact carries_entriesOfValue naming _ heap
    · exact .error _ _
  refine .bind ofArgs fun ⟨entries, heap⟩ => ?_
  exact .ok (Entries.merge entries call.named, heap)

theorem carries_ofLentBuffer (buffer type shape order : Value)
    (heap : Heap) :
    Carries (carry naming)
      (Payload.ofLentBuffer buffer type shape order heap)
      (Payload.ofLentBuffer buffer type shape order
        (heap.renamed naming)) := by
  unfold Payload.ofLentBuffer
  refine .bind (carries_payloadDtype type) fun type => ?_
  refine .bind (.refl _) fun buffer => ?_
  have rebuilt : Carries (carry naming)
      (do
        let line ← heap.lend type buffer
        let found ← heap.iterate shape
        let firstFastest ← Payload.placementOrder order
        let array ← line.reshape (← NdArray.extentsOf found.1) firstFastest
        return (array, found.2) : Except Refusal (NdArray × Heap))
      (do
        let line ← (heap.renamed naming).lend type buffer
        let found ← (heap.renamed naming).iterate shape
        let firstFastest ← Payload.placementOrder order
        let array ← line.reshape (← NdArray.extentsOf found.1) firstFastest
        return (array, found.2) : Except Refusal (NdArray × Heap)) := by
    rw [lend_renamed]
    refine .bind (.refl _) fun line => ?_
    refine .bind (carries_iterate naming heap shape) fun found => ?_
    refine .bind (.refl _) fun firstFastest => ?_
    refine .bind (.refl _) fun extents => ?_
    exact .bind (.refl _) fun array => .ok (array, found.2)
  intro made success
  dsimp only [id] at success ⊢
  split at success
  · next result outcome =>
      cases success
      have again := rebuilt _ outcome
      split
      · next same =>
          cases same.symm.trans again
          rfl
      all_goals next same => cases same.symm.trans again
  · exact absurd success (complaint_ne_ok _ _ _)
  · exact absurd success (complaint_ne_ok _ _ _)
  · cases success

theorem carries_arrayOfBuffer (call : Call) (heap : Heap) :
    Carries (carry naming) (arrayOfBuffer call heap)
      (arrayOfBuffer call (heap.renamed naming)) := by
  unfold arrayOfBuffer
  refine .bind (.refl _) fun values => ?_
  refine .bind (carries_ofLentBuffer naming _ _ _ _ heap)
    fun ⟨array, heap⟩ => ?_
  exact carries_alloc naming heap fun _ => rfl

theorem carries_decodeCarrier (call : Call) (heap : Heap) :
    Carries id (decodeCarrier call heap)
      (decodeCarrier call (heap.renamed naming)) := by
  unfold decodeCarrier
  refine .bind (.refl _) fun values => ?_
  dsimp only [id]
  split
  · exact fun result success => absurd success (complaint_ne_ok _ _ _)
  · exact .refl _

end Constructor

end PickleGraph
