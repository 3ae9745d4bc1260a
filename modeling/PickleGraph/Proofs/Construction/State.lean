import PickleGraph.Construction.State
import PickleGraph.Proofs.Machine.Stationary
import PickleGraph.Proofs.Value.Key

/-!
# States merged in place

A record may also be changed while its state is being merged, mapping by
mapping. This makes no difference: whatever can fail fails before the first
mapping is written.

A state is a core with mappings laid over it. Its mappings are written from the
core outwards, so that the outermost one with an entry for a key decides.
-/

namespace PickleGraph.Record

open Actions

variable {heap : Heap} {state : Value}

/-- An action that changes a record and leaves it as it stands if it fails. -/
abbrev Merging := EStateM Failure Record

def ask {α : Type} (answer : Except Failure α) : Merging α :=
  fun record =>
    match answer with
    | .ok result => .ok result record
    | .error failure => .error failure record

/-- Writes a mapping into the record; a false value holds nothing. -/
def writeMapping (heap : Heap) (state : Value) : Merging Unit := do
  if ← ask (liftM (heap.isTrue state)) then
    match heap.entries? state with
    | some entries => modify (·.update entries)
    | none =>
        ask (Failure.raise (.stateNotMapping (← get).target
          (Text.ofString (heap.typeName state))))

/-- Writes a mapping, or a pair of a mapping or nothing and of slots, which are
written first and may be such a pair again. -/
def writeState (heap : Heap) (state : Value) : Merging Unit := do
  match state with
  | .tuple [state, slots] =>
      if mergeState.isMappingOrNone heap state then
        if ← ask (liftM (heap.isTrue slots)) then
          writeState heap slots
        writeMapping heap state
      else
        writeMapping heap (.tuple [state, slots])
  | state => writeMapping heap state
termination_by state
decreasing_by simp only [Value.tuple.sizeOf_spec, List.cons.sizeOf_spec]; omega

/-- The change of a record that has been worked out beforehand. -/
def replaceBy (outcome : Record → Except Failure Record) : Merging Unit :=
  fun record =>
    match outcome record with
    | .ok after => .ok () after
    | .error failure => .error failure record

theorem writeMapping_eq (heap : Heap) (state : Value) :
    writeMapping heap state = replaceBy (·.mergeMapping heap state) := by
  funext record
  unfold writeMapping replaceBy mergeMapping
  cases heap.isTrue state with
  | error refusal => rfl
  | ok isTrue =>
      cases isTrue with
      | false => rfl
      | true =>
          cases heap.entries? state with
          | some entries => rfl
          | none => rfl

/-- Only of an array is it not always known whether it is true. -/
theorem exists_isTrue (noArray : heap.array? state = none) :
    ∃ truth, heap.isTrue state = .ok truth := by
  unfold Heap.isTrue
  split
  · next address =>
      split
      · exact ⟨_, rfl⟩
      · next here => simp [Heap.array?, here] at noArray
      · exact ⟨_, rfl⟩
  · exact ⟨_, rfl⟩

theorem array?_of_entries? {entries : List (Value × Value)}
    (found : heap.entries? state = some entries) :
    heap.array? state = none := by
  unfold Heap.entries? at found
  unfold Heap.array?
  split at found
  · split at found
    · next here => simp only [here]
    · cases found
  · cases found

/-- A mapping, or nothing, is merged without failure. -/
theorem exists_mergeMapping
    (isMapping : mergeState.isMappingOrNone heap state = true)
    (record : Record) :
    ∃ after, record.mergeMapping heap state = .ok after := by
  unfold mergeState.isMappingOrNone at isMapping
  split at isMapping
  · exact ⟨record, rfl⟩
  · obtain ⟨entries, found⟩ := Option.isSome_iff_exists.mp isMapping
    obtain ⟨truth, isTrue⟩ := exists_isTrue (array?_of_entries? found)
    unfold mergeMapping
    rw [isTrue, found]
    cases truth with
    | false => exact ⟨record, rfl⟩
    | true => exact ⟨record.update entries, rfl⟩

/-- A state that is written as it is merged either is written as a whole or
leaves the record as it was. -/
theorem writeState_eq (heap : Heap) (state : Value) :
    writeState heap state = replaceBy (·.mergeState heap state) := by
  funext record
  fun_induction writeState heap state with
  | case1 state slots isMapping slotsWritten =>
      have pair : record.mergeState heap (.tuple [state, slots]) = (do
          let record ← if ← heap.isTrue slots then
            record.mergeState heap slots else pure record
          record.mergeMapping heap state) := by
        rw [mergeState, if_pos isMapping]
      simp only [replaceBy] at slotsWritten ⊢
      cases holdsSlots : heap.isTrue slots with
      | error refusal =>
          rw [pair, holdsSlots]
          rfl
      | ok holds =>
          rw [pair, holdsSlots]
          cases holds with
          | false => exact congrFun (writeMapping_eq heap state) record
          | true =>
              have asked : ask (liftM (Except.ok true : Except Refusal Bool))
                  record = .ok true record := rfl
              rw [bind_of_eq_ok asked]
              dsimp only
              rw [if_pos rfl]
              cases merged : record.mergeState heap slots with
              | error failure =>
                  rw [merged] at slotsWritten
                  rw [bind_of_eq_error slotsWritten]
                  rfl
              | ok middle =>
                  -- Nothing can fail behind the slots.
                  obtain ⟨after, whole⟩ :=
                    exists_mergeMapping isMapping middle
                  have written : writeMapping heap state middle =
                      .ok () after := by
                    rw [writeMapping_eq, replaceBy, whole]
                  rw [merged] at slotsWritten
                  rw [bind_of_eq_ok slotsWritten, written]
                  show _ = match middle.mergeMapping heap state with
                    | .ok after => _
                    | .error failure => _
                  rw [whole]
  | case2 state slots isOther =>
      rw [writeMapping_eq]
      simp only [replaceBy]
      rw [mergeState, if_neg isOther]
  | case3 state isNoPair =>
      rw [writeMapping_eq]
      simp only [replaceBy]
      rw [mergeState]
      exact isNoPair

/-- A mapping as a state gives a record its entries. -/
theorem mergeState_dict {record : Record} {address : Address}
    {ordered : Bool} {entries : List (Value × Value)}
    (here : heap.get address = .dict ordered entries) :
    record.mergeState heap (.object address) =
      .ok (record.update entries) := by
  have isMapping : heap.entries? (.object address) = some entries := by
    simp only [Heap.entries?, here]
  have isTrue : heap.isTrue (.object address) =
      .ok (!entries.isEmpty) := by
    simp only [Heap.isTrue, here, Heap.isTruePlain]
  simp only [mergeState, mergeMapping, isTrue, isMapping]
  cases entries with
  | nil => rfl
  | cons entry rest => rfl

/-! ## Layers -/

/-- A state of mappings laid over a core, the outermost one first. A layer is a
pair whose first item is a mapping or nothing, and the core is no such pair. -/
inductive Layered (heap : Heap) :
    Value → List (List (Value × Value)) → Value → Prop
  | core {core : Value} :
      (∀ first rest, core = .tuple [first, rest] →
        mergeState.isMappingOrNone heap first = false) →
      Layered heap core [(heap.entries? core).getD []] core
  | nothing {rest core : Value} {mappings : List (List (Value × Value))} :
      Layered heap rest mappings core →
      Layered heap (.tuple [.none, rest]) ([] :: mappings) core
  | mapping {first rest core : Value} {entries : List (Value × Value)}
      {mappings : List (List (Value × Value))} :
      heap.entries? first = some entries →
      Layered heap rest mappings core →
      Layered heap (.tuple [first, rest]) (entries :: mappings) core

/-- A value that is true and no mapping. -/
def IsForeign (heap : Heap) (core : Value) : Prop :=
  heap.isTrue core = .ok true ∧ heap.entries? core = none

variable {core : Value} {mappings : List (List (Value × Value))}
variable {record : Record}

theorem entries_of_isTrue_false (holds : heap.isTrue core = .ok false) :
    (heap.entries? core).getD [] = [] := by
  cases found : heap.entries? core with
  | none => rfl
  | some entries =>
      unfold Heap.entries? at found
      unfold Heap.isTrue at holds
      split at found
      · next address =>
          split at found
          · next here =>
              cases found
              simp only [here, Heap.isTruePlain] at holds
              cases entries with
              | nil => rfl
              | cons entry rest => cases holds
          · cases found
      · cases found

theorem mergeMapping_eq (noArray : heap.array? core = none) :
    (IsForeign heap core → record.mergeMapping heap core =
      .error (.ofCause (.stateNotMapping record.target
        (Text.ofString (heap.typeName core))))) ∧
    (¬ IsForeign heap core → record.mergeMapping heap core =
      .ok (record.update ((heap.entries? core).getD []))) := by
  obtain ⟨truth, holds⟩ := exists_isTrue noArray
  unfold mergeMapping IsForeign
  rw [holds]
  cases truth with
  | false =>
      rw [entries_of_isTrue_false holds]
      exact ⟨fun foreign => (by cases foreign.1), fun _ => rfl⟩
  | true =>
      cases found : heap.entries? core with
      | none => exact ⟨fun _ => rfl, fun fitting => absurd ⟨rfl, rfl⟩ fitting⟩
      | some entries =>
          exact ⟨fun foreign => (by cases foreign.2), fun _ => rfl⟩

/-- A false state changes nothing, so that it may be merged all the same. -/
theorem mergeState_of_isTrue_false (holds : heap.isTrue state = .ok false) :
    record.mergeState heap state = .ok record := by
  have merged : record.mergeMapping heap state = .ok record := by
    unfold mergeMapping
    rw [holds]
    rfl
  unfold mergeState
  split
  · cases holds
  · exact merged

theorem mergeState_pair {first rest : Value}
    (isMapping : mergeState.isMappingOrNone heap first = true)
    (noArray : heap.array? rest = none) :
    record.mergeState heap (.tuple [first, rest]) =
      record.mergeState heap rest >>= (·.mergeMapping heap first) := by
  obtain ⟨truth, holds⟩ := exists_isTrue noArray
  rw [mergeState, if_pos isMapping, holds]
  cases truth with
  | false =>
      rw [mergeState_of_isTrue_false holds]
      rfl
  | true => rfl

theorem update_append (record : Record)
    (earlier later : List (Value × Value)) :
    record.update (earlier ++ later) = (record.update earlier).update later :=
  congrArg (fun fields => { record with fields })
    (Entries.merge_append record.fields earlier later)

theorem Layered.array?_eq_none (layered : Layered heap state mappings core)
    (noArray : heap.array? core = none) : heap.array? state = none := by
  cases layered with
  | core _ => exact noArray
  | nothing _ => rfl
  | mapping _ _ => rfl

/-- The mappings of a state are written from the core outwards, unless the core
is refused: then the first thing to happen is the failure. -/
theorem Layered.mergeState_eq (layered : Layered heap state mappings core)
    (noArray : heap.array? core = none) {record : Record} :
    (IsForeign heap core → record.mergeState heap state =
      .error (.ofCause (.stateNotMapping record.target
        (Text.ofString (heap.typeName core))))) ∧
    (¬ IsForeign heap core → record.mergeState heap state =
      .ok (record.update mappings.reverse.flatten)) := by
  induction layered with
  | @core core noPair =>
      have merged : record.mergeState heap core =
          record.mergeMapping heap core := by
        unfold mergeState
        split
        · next first rest => rw [if_neg (by simp [noPair first rest rfl])]
        · rfl
      rw [merged, List.reverse_singleton, List.flatten_singleton]
      exact mergeMapping_eq noArray
  | @nothing rest core mappings layered inductionHypothesis =>
      obtain ⟨refused, merged⟩ := inductionHypothesis noArray
      rw [mergeState_pair rfl (layered.array?_eq_none noArray)]
      constructor
      · intro foreign
        rw [refused foreign]
        rfl
      · intro fitting
        rw [merged fitting, List.reverse_cons, List.flatten_append,
          List.flatten_singleton, List.append_nil]
        rfl
  | @mapping first rest core entries mappings found layered
      inductionHypothesis =>
      obtain ⟨refused, merged⟩ := inductionHypothesis noArray
      have isMapping : mergeState.isMappingOrNone heap first = true := by
        unfold mergeState.isMappingOrNone
        split
        · rfl
        · rw [found]
          rfl
      have fitting : ¬ IsForeign heap first := by
        rintro ⟨_, none⟩
        rw [found] at none
        cases none
      rw [mergeState_pair isMapping (layered.array?_eq_none noArray)]
      constructor
      · intro foreign
        rw [refused foreign]
        rfl
      · intro isFitting
        rw [merged isFitting, List.reverse_cons, List.flatten_append,
          List.flatten_singleton, update_append]
        refine ((mergeMapping_eq (array?_of_entries? found)).2 fitting).trans ?_
        rw [found]
        rfl

/-- Whether the records of a strategy take mappings as states. -/
def mergesMappings : Strategy → Bool
  | .generic _ _ | .array _ _ => true
  | _ => false

theorem applyState_eq_mergeState
    (merges : mergesMappings record.strategy = true) (state : Value) :
    record.applyState heap state = record.mergeState heap state := by
  unfold applyState
  cases found : record.strategy with
  | extension target kind arguments names =>
      rw [found] at merges
      cases merges
  | _ => rfl

/-- The entry of a mapping decides at the place of its key if neither a later
entry of the mapping nor a mapping further out has the key. -/
theorem getElem?_update_layers {fields : List (Value × Value)}
    {outer inner : List (List (Value × Value))}
    {front back : List (Value × Value)} {key value : Value}
    (last : ∀ entry ∈ back ++ outer.flatten,
      (Entries.boundKey key (Entries.merge fields
        (inner.reverse.flatten ++ front))).matchesKey entry.1 = false) :
    (Entries.merge fields
        (outer ++ (front ++ (key, value) :: back) :: inner).reverse.flatten)[
      Entries.place key
        (Entries.merge fields (inner.reverse.flatten ++ front))]? =
      some (Entries.boundKey key
        (Entries.merge fields (inner.reverse.flatten ++ front)), value) := by
  have regrouped :
      (outer ++ (front ++ (key, value) :: back) :: inner).reverse.flatten =
        (inner.reverse.flatten ++ front) ++
          (key, value) :: (back ++ outer.reverse.flatten) := by
    simp
  have isThere := Entries.getElem?_insert_place key value
    (Entries.merge fields (inner.reverse.flatten ++ front))
  have unmatched : ∀ entry ∈ back ++ outer.reverse.flatten,
      (Entries.boundKey key (Entries.merge fields
        (inner.reverse.flatten ++ front))).matchesKey entry.1 = false := by
    intro entry member
    refine last entry ?_
    simpa using member
  rw [regrouped]
  refine Entries.last_value_kept ?_
  rw [Entries.merge_append]
  exact Entries.spares_of_unmatched isThere unmatched

/-- A state of mappings over a core is refused exactly if its core is true and
no mapping, and then nothing is written: neither while it is being merged nor in
the machine. Any other state is written from the core outwards. The fields that
were there keep their places and keys, and their values if no mapping has their
keys. At the place of any other key the last entry of the outermost mapping that
has the key decides. An interpreter's limit on nested calls is left aside, both
for the layers and for the keys. -/
theorem applyState_layered (merges : mergesMappings record.strategy = true)
    (layered : Layered heap state mappings core)
    (noArray : heap.array? core = none) :
    let cause : Cause := .stateNotMapping record.target
      (Text.ofString (heap.typeName core))
    let after := record.update mappings.reverse.flatten
    cause.failureClass = .malformedLiteral ∧
    (IsForeign heap core →
      record.applyState heap state = .error (.ofCause cause) ∧
      writeState heap state record = .error (.ofCause cause) record ∧
      ∀ (options : Options) (nested : Decoding Value) (machine : Machine)
        (address : Address) (rest : List Value),
        machine.heap = heap → heap.get address = .record record →
        machine.stack = state :: .object address :: rest →
        Execution.giveState options nested machine =
          .error (.ofCause cause)
            { machine with stack := .object address :: rest }) ∧
    (¬ IsForeign heap core →
      record.applyState heap state = .ok after ∧
      writeState heap state record = .ok () after) ∧
    (∀ (index : Nat) (bound old : Value),
      record.fields[index]? = some (bound, old) →
      (∃ value, after.fields[index]? = some (bound, value)) ∧
      ((∀ entry ∈ mappings.flatten, bound.matchesKey entry.1 = false) →
        after.fields[index]? = some (bound, old))) ∧
    (∀ outer inner front back key value,
      mappings = outer ++ (front ++ (key, value) :: back) :: inner →
      let before := Entries.merge record.fields
        (inner.reverse.flatten ++ front)
      (∀ entry ∈ back ++ outer.flatten,
        (Entries.boundKey key before).matchesKey entry.1 = false) →
      after.fields[Entries.place key before]? =
        some (Entries.boundKey key before, value)) ∧
    ∀ text, Entries.find? (.str text) after.fields =
      (mappings.findSome? (Entries.last? (.str text))).or
        (Entries.find? (.str text) record.fields) := by
  intro cause after
  have applied : record.applyState heap state =
      record.mergeState heap state :=
    applyState_eq_mergeState merges state
  obtain ⟨refused, merged⟩ := layered.mergeState_eq noArray
  refine ⟨rfl, fun foreign => ?_, fun fitting => ?_,
    fun index bound old isThere => ⟨Entries.key_merge isThere _, ?_⟩, ?_,
    fun text => Entries.find?_merge_flatten text record.fields mappings⟩
  · have failed := applied.trans (refused foreign)
    refine ⟨failed, ?_, ?_⟩
    · rw [writeState_eq, replaceBy, refused foreign]
    · rintro options nested machine address rest rfl here stack
      exact Execution.giveState_of_applyState_error stack here failed
  · refine ⟨applied.trans (merged fitting), ?_⟩
    rw [writeState_eq, replaceBy, merged fitting]
  · intro unmatched
    refine Entries.value_merge isThere
      (Entries.spares_of_unmatched isThere fun entry member => ?_)
    refine unmatched entry ?_
    simpa using member
  · rintro outer inner front back key value rfl before last
    exact getElem?_update_layers last

/-- Two mappings with a key in common. -/
def layersHeap : Heap where
  objects := #[
    .dict false [(.str (Text.ofString "a"), .int 1)],
    .dict false [(.str (Text.ofString "a"), .int 2),
      (.str (Text.ofString "b"), .int 3)]]
  marks := 0

/-- A record with two fields, one of which is in a mapping. -/
def layersRecord : Record where
  kind := .plain
  module := Text.ofString "m"
  name := Text.ofString "N"
  target := Text.ofString "m.N"
  strategy := .generic (Text.ofString "m.N") .plain
  args := []
  fields := [(.str (Text.ofString "c"), .int 0),
    (.str (Text.ofString "b"), .int 0)]

/-- The outer mapping lies over nothing, which lies over the inner one. In the
place of the inner one a number is refused. -/
theorem applyState_layered_twice :
    mergesMappings layersRecord.strategy = true ∧
      layersRecord.applyState layersHeap
          (.tuple [.object 0, .tuple [.none, .object 1]]) =
        .ok { layersRecord with
          fields := [(.str (Text.ofString "c"), .int 0),
            (.str (Text.ofString "b"), .int 3),
            (.str (Text.ofString "a"), .int 1)] } ∧
      layersRecord.applyState layersHeap
          (.tuple [.object 0, .tuple [.none, .int 5]]) =
        .error (.ofCause (.stateNotMapping (Text.ofString "m.N")
          (Text.ofString "int"))) := by
  have merges : mergesMappings layersRecord.strategy = true := rfl
  have overMapping : Layered layersHeap
      (.tuple [.object 0, .tuple [.none, .object 1]])
      [[(.str (Text.ofString "a"), .int 1)], [],
        [(.str (Text.ofString "a"), .int 2),
          (.str (Text.ofString "b"), .int 3)]] (.object 1) :=
    .mapping rfl (.nothing (.core (fun _ _ same => by cases same)))
  have overNumber : Layered layersHeap
      (.tuple [.object 0, .tuple [.none, .int 5]])
      [[(.str (Text.ofString "a"), .int 1)], [], []] (.int 5) :=
    .mapping rfl (.nothing (.core (fun _ _ same => by cases same)))
  have fitting : ¬ IsForeign layersHeap (.object 1) := by
    rintro ⟨_, none⟩
    cases none
  have foreign : IsForeign layersHeap (.int 5) := ⟨rfl, rfl⟩
  obtain ⟨_, _, written, _⟩ := applyState_layered merges overMapping rfl
  obtain ⟨_, refused, _⟩ := applyState_layered merges overNumber rfl
  exact ⟨merges, (written fitting).1, (refused foreign).1⟩

end PickleGraph.Record
