import Mathlib.Data.List.Nodup
import PickleGraph.Proofs.Graph.Ledger

/-!
# Sharing and cycles survive decoding

A depth-first encoding of a graph is decoded to a copy of the graph in the heap.
The invariant of the traversal is a ledger of the nodes that have been met:
fetching a slot gives the object of its node, whether that object is complete or
still being filled, and every node that is left is complete.
-/

namespace PickleGraph

open Execution Decoding

namespace Graph

variable {ι : Type} (options : Options) (graph : Graph ι)

/-! ## What the code of a task does -/

def LeadsRow (items : List (Item ι)) (before : Bindings ι) (code : Bytes)
    (after : Bindings ι) : Prop :=
  ∀ (stack : List Value) (marks : List (List Value)) (heap : Heap)
    (ledger : Ledger ι),
    ledger.bindings = before → ledger.Sound heap →
    ∃ (values : List Value) (added : Ledger ι) (later : Heap),
      Ledger.bindings (ledger ++ added) = after ∧
        Executes options code ⟨stack, marks, ledger.memo, heap⟩
          ⟨values.reverse ++ stack, marks, Ledger.memo (ledger ++ added),
            later⟩ ∧
        Progress graph [] ledger heap added later ∧
        Item.AllShownBy (Ledger.Has (ledger ++ added)) items values ∧
        Scalar.Marked heap.marks later.marks values

/-- The code adds the items to a list that is under construction. -/
def AddsItems (items : List (Item ι)) (code : Bytes) (after : Bindings ι)
    (stack : List Value) (marks : List (List Value)) (heap : Heap)
    (ledger : Ledger ι) (address : Address) (present : Array Value) : Prop :=
  ∃ (values : List Value) (added : Ledger ι) (later : Heap),
    Ledger.bindings (ledger ++ added) = after ∧
      Executes options code
        ⟨.object address :: stack, marks, ledger.memo, heap⟩
        ⟨.object address :: stack, marks, Ledger.memo (ledger ++ added),
          later⟩ ∧
      Progress graph [address] ledger heap added later ∧
      later.get address = .list (present ++ values.toArray) ∧
      Item.AllShownBy (Ledger.Has (ledger ++ added)) items values

def LeadsAdditions (items : List (Item ι)) (before : Bindings ι)
    (code : Bytes) (after : Bindings ι) : Prop :=
  ∀ (stack : List Value) (marks : List (List Value)) (heap : Heap)
    (ledger : Ledger ι) (address : Address) (present : Array Value),
    ledger.bindings = before → ledger.Sound heap →
    heap.get address = .list present →
    AddsItems options graph items code after stack marks heap ledger address
      present

/-- The code adds the entries to a mapping that is under construction. -/
def AddsEntries (entries : List (Scalar × Item ι)) (code : Bytes)
    (after : Bindings ι) (stack : List Value) (marks : List (List Value))
    (heap : Heap) (ledger : Ledger ι) (address : Address)
    (present : List (Value × Value)) : Prop :=
  ∃ (pairs : List (Value × Value)) (added : Ledger ι) (later : Heap),
    Ledger.bindings (ledger ++ added) = after ∧
      Executes options code
        ⟨.object address :: stack, marks, ledger.memo, heap⟩
        ⟨.object address :: stack, marks, Ledger.memo (ledger ++ added),
          later⟩ ∧
      Progress graph [address] ledger heap added later ∧
      later.get address = .dict false (present ++ pairs) ∧
      List.Forall₂ (EntryShownBy (Ledger.Has (ledger ++ added))) entries
        pairs

/-- The scalars are the keys that a mapping has, with their NaNs marked in
turn. -/
structure HasKeys (heap : Heap) (keys : List Scalar)
    (present : List (Value × Value)) : Prop where
  shown : List.Forall₂ Scalar.Is keys (present.map (·.1))
  marked : Scalar.Marked 0 heap.marks (present.map (·.1))

def LeadsEntries (entries : List (Scalar × Item ι)) (before : Bindings ι)
    (code : Bytes) (after : Bindings ι) : Prop :=
  ∀ (stack : List Value) (marks : List (List Value)) (heap : Heap)
    (ledger : Ledger ι) (address : Address) (keys : List Scalar)
    (present : List (Value × Value)),
    ledger.bindings = before → ledger.Sound heap →
    heap.get address = .dict false present → HasKeys heap keys present →
    Scalar.Distinct (keys ++ entries.map (·.1)) →
    AddsEntries options graph entries code after stack marks heap ledger
      address present

def Leads : Task ι → Bindings ι → Bytes → Bindings ι → Prop
  | .row items => LeadsRow options graph items
  | .additions items => LeadsAdditions options graph items
  | .entries entries => LeadsEntries options graph entries

variable {options graph}
variable {before middle after : Bindings ι} {code more : Bytes}

/-! ## Rows -/

theorem leads_scalar {content : Scalar} (writes : content.Code code) :
    LeadsRow options graph [.scalar content] before code before := by
  intro stack marks heap ledger same sound
  obtain ⟨value, later, shown, noObject, ⟨grown, marked⟩, run⟩ :=
    writes.executes
  have extends_ := Heap.Extends.of_objects_eq noObject
  refine ⟨[value], [], later, ?_, ?_, ?_, ⟨value, [], rfl, shown, rfl⟩,
    marked⟩
  · rwa [List.append_nil]
  · rw [List.append_nil]
    exact run
  · exact {
      extends_ := extends_
      marks := grown
      sound := by
        rw [List.append_nil]
        exact sound.mono extends_.size
      new := by simp
      complete := by simp }

theorem leads_again {name : ι} {slot : Nat}
    (member : (name, slot) ∈ before) (fetches : Fetches slot code) :
    LeadsRow options graph [.node name] before code before := by
  intro stack marks heap ledger same sound
  rw [← same] at member
  obtain ⟨place, placeMember, isPlace⟩ := List.mem_map.mp member
  cases isPlace
  have found := Ledger.lookup_memo sound placeMember
  refine ⟨[.object place.address], [], heap, ?_, ?_, .refl sound, ?_, ?_⟩
  · rwa [List.append_nil]
  · rw [List.append_nil]
    exact fetches.executes found
  · rw [List.append_nil]
    exact ⟨_, [], rfl, ⟨_, ⟨place, placeMember, rfl, rfl⟩, rfl⟩, rfl⟩
  · exact Scalar.marked_single rfl

theorem leads_noItem : LeadsRow options graph [] before [] before := by
  intro stack marks heap ledger same sound
  refine ⟨[], [], heap, ?_, ?_, .refl sound, rfl, .nil _ _⟩
  · rwa [List.append_nil]
  · rw [List.append_nil]
    exact .nil _

theorem leads_nextItem {item : Item ι} {items : List (Item ι)}
    (first : LeadsRow options graph [item] before code middle)
    (rest : LeadsRow options graph items middle more after) :
    LeadsRow options graph (item :: items) before (code ++ more) after := by
  intro stack marks heap ledger same sound
  obtain ⟨_, added, between, met, run, progress, ⟨value, _, rfl, shown, rfl⟩,
    marked⟩ := first stack marks heap ledger same sound
  obtain ⟨values, further, later, finished, restRun, restProgress, others,
    restMarked⟩ := rest (value :: stack) marks between (ledger ++ added) met
      progress.sound
  rw [List.append_assoc] at finished restRun others
  refine ⟨value :: values, added ++ further, later, finished, ?_,
    progress.trans restProgress (by simp), ⟨value, values, rfl, ?_, others⟩,
    marked.append restMarked ⟨progress.marks, restProgress.marks⟩⟩
  · rw [List.reverse_cons, List.append_assoc]
    exact run.append restRun
  · refine shown.mono fun _ _ has => ?_
    rw [← List.append_assoc]
    exact has.append further

/-! ## Tuples -/

theorem leads_emptyTuple :
    LeadsRow options graph [.tuple []] before [Opcode.emptyTuple.code]
      before := by
  intro stack marks heap ledger same sound
  refine ⟨[.tuple []], [], heap, ?_, ?_, .refl sound,
    ⟨_, [], rfl, ⟨[], rfl, rfl⟩, rfl⟩, Scalar.marked_single rfl⟩
  · rwa [List.append_nil]
  · rw [List.append_nil]
    exact .bare .emptyTuple rfl (effect_push _)

theorem leads_sizedTuple {items : List (Item ι)} {opcode : Opcode}
    (isSize : tupleSize? opcode = some items.length)
    (inner : LeadsRow options graph items before code after) :
    LeadsRow options graph [.tuple items] before (code ++ [opcode.code])
      after := by
  intro stack marks heap ledger same sound
  obtain ⟨values, added, later, met, run, progress, shown, _⟩ :=
    inner stack marks heap ledger same sound
  have length : values.length = items.length :=
    (Item.allShownBy_iff.mp shown).length_eq.symm
  exact ⟨[.tuple values], added, later, met,
    run.append (.bare opcode (ofOpcode_of_tupleSize? isSize)
      (effect_tupleOf length)),
    progress, ⟨_, [], rfl, ⟨values, rfl, shown⟩, rfl⟩,
    Scalar.marked_single rfl⟩

theorem leads_markedTuple {items : List (Item ι)}
    (inner : LeadsRow options graph items before code after) :
    LeadsRow options graph [.tuple items] before (marked code .tuple)
      after := by
  intro stack marks heap ledger same sound
  obtain ⟨values, added, later, met, run, progress, shown, _⟩ :=
    inner [] (stack :: marks) heap ledger same sound
  exact ⟨[.tuple values], added, later, met,
    executes_marked run rfl (effect_tuple values), progress,
    ⟨_, [], rfl, ⟨values, rfl, shown⟩, rfl⟩, Scalar.marked_single rfl⟩

/-! ## Nodes -/

/-- A new container is bound to its slot before it is filled. -/
theorem executes_bound {opcode : Opcode} {object : Object} {name : ι}
    {slot : Nat} {binding : Bytes} {stack : List Value}
    {marks : List (List Value)} {heap : Heap} {ledger : Ledger ι}
    (creates : Instruction.ofOpcode options.rules opcode =
      pure (.pushObject object))
    (free : ledger.bindings.Free name slot)
    (binds : Binds ledger.bindings.length slot binding) :
    Executes options (opcode.code :: binding)
      ⟨stack, marks, ledger.memo, heap⟩
      ⟨.object heap.objects.size :: stack, marks,
        Ledger.memo (ledger ++ [⟨name, slot, heap.objects.size⟩]),
        (heap.alloc object).2⟩ := by
  have length : ledger.bindings.length = ledger.memo.length := by
    rw [Ledger.bindings, Ledger.memo, List.length_map, List.length_map]
  rw [length] at binds
  have fresh : slot ∉ ledger.memo.map (·.1) := by
    have slots : ledger.bindings.map (·.2) = ledger.memo.map (·.1) := by
      rw [Ledger.bindings, Ledger.memo, List.map_map, List.map_map]
      rfl
    exact slots ▸ free.slot
  rw [Ledger.memo_append]
  exact (Executes.bare opcode creates (effect_pushObject object)).append
    (binds.executes fresh)

/-- A node that is met first is complete once its contents have been added. -/
theorem leads_node {opcode : Opcode} {object : Object} {name : ι}
    {slot : Nat} {binding : Bytes}
    (creates : Instruction.ofOpcode options.rules opcode =
      pure (.pushObject object))
    (free : before.Free name slot) (binds : Binds before.length slot binding)
    (fills : ∀ (stack : List Value) (marks : List (List Value))
      (heap : Heap) (ledger : Ledger ι) (address : Address),
      ledger.bindings = before ++ [(name, slot)] → ledger.Sound heap →
      heap.get address = object →
      ∃ (added : Ledger ι) (later : Heap),
        Ledger.bindings (ledger ++ added) = after ∧
          Executes options code
            ⟨.object address :: stack, marks, ledger.memo, heap⟩
            ⟨.object address :: stack, marks, Ledger.memo (ledger ++ added),
              later⟩ ∧
          Progress graph [address] ledger heap added later ∧
          (graph.node name).ShownAt (Ledger.Has (ledger ++ added)) later
            address) :
    LeadsRow options graph [.node name] before
      (opcode.code :: (binding ++ code)) after := by
  intro stack marks heap ledger same sound
  subst same
  let place : Place ι := ⟨name, slot, heap.objects.size⟩
  obtain ⟨added, later, finished, run, progress, complete⟩ :=
    fills stack marks (heap.alloc object).2 (ledger ++ [place])
      heap.objects.size (Ledger.bindings_append ledger [place])
      (sound.concat free object) (Heap.get_alloc_self heap object)
  rw [← List.append_cons] at finished run complete
  refine ⟨[.object heap.objects.size], place :: added, later, finished,
    (executes_bound creates free binds).append run,
    progress.visit complete, ?_, Scalar.marked_single rfl⟩
  exact ⟨_, [], rfl, ⟨_, ⟨place, by simp, rfl, rfl⟩, rfl⟩, rfl⟩

theorem leads_list {name : ι} {slot : Nat} {items : List (Item ι)}
    {binding : Bytes} (isList : graph.node name = .list items)
    (free : before.Free name slot) (binds : Binds before.length slot binding)
    (inner : LeadsAdditions options graph items (before ++ [(name, slot)])
      code after) :
    LeadsRow options graph [.node name] before
      (Opcode.emptyList.code :: (binding ++ code)) after := by
  have creates : Instruction.ofOpcode options.rules .emptyList =
      pure (.pushObject (.list #[])) := rfl
  refine leads_node creates free binds ?_
  intro stack marks heap ledger address same sound here
  obtain ⟨values, added, later, finished, run, progress, filled, shown⟩ :=
    inner stack marks heap ledger address #[] same sound here
  refine ⟨added, later, finished, run, progress, ?_⟩
  rw [isList]
  exact ⟨_, filled, by simpa using shown⟩

theorem leads_dict {name : ι} {slot : Nat}
    {entries : List (Scalar × Item ι)}
    {distinct : Scalar.Distinct (entries.map (·.1))} {binding : Bytes}
    (isDict : graph.node name = .dict entries distinct)
    (free : before.Free name slot) (binds : Binds before.length slot binding)
    (inner : LeadsEntries options graph entries (before ++ [(name, slot)])
      code after) :
    LeadsRow options graph [.node name] before
      (Opcode.emptyDict.code :: (binding ++ code)) after := by
  have creates : Instruction.ofOpcode options.rules .emptyDict =
      pure (.pushObject (.dict false [])) := rfl
  refine leads_node creates free binds ?_
  intro stack marks heap ledger address same sound here
  obtain ⟨pairs, added, later, finished, run, progress, filled, shown⟩ :=
    inner stack marks heap ledger address [] [] same sound here
      ⟨.nil, .nil _ _⟩ distinct
  refine ⟨added, later, finished, run, progress, ?_⟩
  rw [isDict]
  exact ⟨pairs, filled, shown⟩

/-! ## Additions to a list -/

theorem leads_noAddition :
    LeadsAdditions options graph [] before [] before := by
  intro stack marks heap ledger address present same sound here
  refine ⟨[], [], heap, ?_, ?_, .refl sound, ?_, rfl⟩
  · rwa [List.append_nil]
  · rw [List.append_nil]
    exact .nil _
  · rw [here]
    exact congrArg Object.list Array.append_empty.symm

/-- A batch of items is added to a list, and then the others. -/
theorem leads_batch {batch items : List (Item ι)} {stack : List Value}
    {marks : List (List Value)} {heap between : Heap} {ledger added : Ledger ι}
    {address : Address} {present : Array Value} {values : List Value}
    (here : heap.get address = .list present)
    (run : Executes options code
      ⟨.object address :: stack, marks, ledger.memo, heap⟩
      ⟨.object address :: stack, marks, Ledger.memo (ledger ++ added),
        between.set address (.list (present ++ values.toArray))⟩)
    (met : Ledger.bindings (ledger ++ added) = middle)
    (progress : Progress graph [] ledger heap added between)
    (shown : Item.AllShownBy (Ledger.Has (ledger ++ added)) batch values)
    (rest : LeadsAdditions options graph items middle more after) :
    AddsItems options graph (batch ++ items) (code ++ more) after stack marks
      heap ledger address present := by
  have old : address < heap.objects.size :=
    Heap.lt_size_of_get here (by simp)
  have filled : (between.set address
      (.list (present ++ values.toArray))).get address =
        .list (present ++ values.toArray) :=
    progress.extends_.get_set old
  have soundAfter := progress.sound.mono
    (Nat.le_of_eq (Heap.size_set between address
      (.list (present ++ values.toArray))).symm)
  obtain ⟨others, further, later, finished, restRun, restProgress, result,
    othersShown⟩ := rest stack marks _ (ledger ++ added) address _ met
      soundAfter filled
  rw [List.append_assoc] at finished restRun othersShown
  refine ⟨values ++ others, added ++ further, later, finished,
    run.append restRun, progress.set_trans old restProgress, ?_, ?_⟩
  · rw [result, append_toArray_append]
  · rw [Item.allShownBy_iff] at shown othersShown ⊢
    refine List.rel_append (shown.imp fun _ _ itemShown => ?_) othersShown
    refine itemShown.mono fun _ _ has => ?_
    rw [← List.append_assoc]
    exact has.append further

theorem leads_append {item : Item ι} {items : List (Item ι)}
    (first : LeadsRow options graph [item] before code middle)
    (rest : LeadsAdditions options graph items middle more after) :
    LeadsAdditions options graph (item :: items) before
      (code ++ Opcode.append.code :: more) after := by
  intro stack marks heap ledger address present same sound here
  obtain ⟨_, added, between, met, run, progress, ⟨value, _, rfl, shown, rfl⟩,
    _⟩ := first (.object address :: stack) marks heap ledger same sound
  have still := progress.extends_.get here (by simp)
  have appended := run.append (.bare .append rfl (effect_append still))
  have batchShown : Item.AllShownBy (Ledger.Has (ledger ++ added)) [item]
      [value] := ⟨value, [], rfl, shown, rfl⟩
  rw [List.append_cons]
  exact leads_batch here appended met progress batchShown rest

theorem leads_appends {batch items : List (Item ι)}
    (first : LeadsRow options graph batch before code middle)
    (rest : LeadsAdditions options graph items middle more after) :
    LeadsAdditions options graph (batch ++ items) before
      (marked code .appends ++ more) after := by
  intro stack marks heap ledger address present same sound here
  obtain ⟨values, added, between, met, run, progress, shown, _⟩ :=
    first [] ((.object address :: stack) :: marks) heap ledger same sound
  have still := progress.extends_.get here (by simp)
  have appended : Executes options (marked code .appends)
      ⟨.object address :: stack, marks, ledger.memo, heap⟩
      ⟨.object address :: stack, marks, Ledger.memo (ledger ++ added),
        between.set address (.list (present ++ values.toArray))⟩ :=
    executes_marked run rfl (effect_appends still)
  exact leads_batch here appended met progress shown rest

/-! ## Additions to a mapping -/

theorem leads_noEntry :
    LeadsEntries options graph [] before [] before := by
  intro stack marks heap ledger address keys present same sound here _ _
  refine ⟨[], [], heap, ?_, ?_, .refl sound, ?_, .nil⟩
  · rwa [List.append_nil]
  · rw [List.append_nil]
    exact .nil _
  · rw [here, List.append_nil]

section Keys

variable {stands : ι → Address → Prop} {heap later : Heap}
variable {keys : List Scalar} {present pairs : List (Value × Value)}
variable {entries : List (Scalar × Item ι)}

/-- The values of keys and values in turn are paired up again. -/
theorem pairUp?_alternating {values : List Value}
    (shown : Item.AllShownBy stands (alternating entries) values) :
    ∃ pairs, pairUp? values = some pairs ∧
      List.Forall₂ (EntryShownBy stands) entries pairs ∧
      (pairs.map (·.1)).Sublist values := by
  induction entries generalizing values with
  | nil =>
      obtain rfl : values = [] := shown
      exact ⟨[], rfl, .nil, .slnil⟩
  | cons entry entries inductionHypothesis =>
      obtain ⟨key, _, rfl, keyShown, value, others, rfl, valueShown, rest⟩ :=
        shown
      obtain ⟨pairs, paired, entriesShown, sublist⟩ :=
        inductionHypothesis rest
      refine ⟨(key, value) :: pairs, ?_, .cons ⟨keyShown, valueShown⟩
        entriesShown, (sublist.cons value).cons_cons key⟩
      rw [pairUp?, paired]
      rfl

theorem keys_of_entriesShown
    (shown : List.Forall₂ (EntryShownBy stands) entries pairs) :
    List.Forall₂ Scalar.Is (entries.map (·.1)) (pairs.map (·.1)) := by
  rw [List.forall₂_map_left_iff, List.forall₂_map_right_iff]
  exact shown.imp fun _ _ entryShown => entryShown.1

theorem checkHashable_of_entriesShown (heap : Heap)
    (shown : List.Forall₂ (EntryShownBy stands) entries pairs) :
    ∀ pair ∈ pairs, heap.checkHashable pair.1 = .ok () := by
  induction shown with
  | nil => simp
  | cons first _ inductionHypothesis =>
      exact List.forall_mem_cons.mpr
        ⟨first.1.checkHashable heap, inductionHypothesis⟩

theorem HasKeys.append (hasKeys : HasKeys heap keys present)
    (shown : List.Forall₂ (EntryShownBy stands) entries pairs)
    (marked : Scalar.Marked heap.marks later.marks (pairs.map (·.1)))
    (grown : heap.marks ≤ later.marks) :
    HasKeys later (keys ++ entries.map (·.1)) (present ++ pairs) := by
  constructor
  · rw [List.map_append]
    exact List.rel_append hasKeys.shown (keys_of_entriesShown shown)
  · rw [List.map_append]
    exact hasKeys.marked.append marked ⟨Nat.zero_le _, grown⟩

theorem HasKeys.apart (hasKeys : HasKeys heap keys present)
    (distinct : Scalar.Distinct keys) :
    Value.Apart (present.map (·.1)) :=
  Scalar.apart_of_distinct distinct hasKeys.shown hasKeys.marked

end Keys

/-- A batch of entries is added to a mapping, and then the others. -/
theorem leads_entryBatch {batch entries : List (Scalar × Item ι)}
    {stack : List Value} {marks : List (List Value)} {heap between : Heap}
    {ledger added : Ledger ι} {address : Address} {keys : List Scalar}
    {present pairs : List (Value × Value)}
    (here : heap.get address = .dict false present)
    (hasKeys : HasKeys between (keys ++ batch.map (·.1)) (present ++ pairs))
    (distinct : Scalar.Distinct (keys ++ (batch ++ entries).map (·.1)))
    (run : Entries.reach present pairs = pairs.length →
      Executes options code
        ⟨.object address :: stack, marks, ledger.memo, heap⟩
        ⟨.object address :: stack, marks, Ledger.memo (ledger ++ added),
          between.set address (.dict false (Entries.merge present pairs))⟩)
    (met : Ledger.bindings (ledger ++ added) = middle)
    (progress : Progress graph [] ledger heap added between)
    (shown : List.Forall₂ (EntryShownBy (Ledger.Has (ledger ++ added)))
      batch pairs)
    (rest : LeadsEntries options graph entries middle more after) :
    AddsEntries options graph (batch ++ entries) (code ++ more) after stack
      marks heap ledger address present := by
  have old : address < heap.objects.size :=
    Heap.lt_size_of_get here (by simp)
  rw [List.map_append, ← List.append_assoc] at distinct
  have distinctBatch : Scalar.Distinct (keys ++ batch.map (·.1)) :=
    (List.pairwise_append.mp distinct).1
  have apart := hasKeys.apart distinctBatch
  have run := run (Entries.reach_of_apart apart)
  rw [Entries.merge_of_apart apart] at run
  have filled : (between.set address
      (.dict false (present ++ pairs))).get address =
        .dict false (present ++ pairs) :=
    progress.extends_.get_set old
  have soundAfter := progress.sound.mono
    (Nat.le_of_eq (Heap.size_set between address
      (.dict false (present ++ pairs))).symm)
  obtain ⟨others, further, later, finished, restRun, restProgress, result,
    othersShown⟩ := rest stack marks _ (ledger ++ added) address _ _ met
      soundAfter filled ⟨hasKeys.shown, hasKeys.marked⟩ distinct
  rw [List.append_assoc] at finished restRun othersShown
  refine ⟨pairs ++ others, added ++ further, later, finished,
    run.append restRun, progress.set_trans old restProgress, ?_, ?_⟩
  · rw [result, List.append_assoc]
  · refine List.rel_append (shown.imp fun _ _ entryShown => ?_) othersShown
    refine ⟨entryShown.1, entryShown.2.mono fun _ _ has => ?_⟩
    rw [← List.append_assoc]
    exact has.append further

theorem leads_setItem {key : Scalar} {item : Item ι}
    {entries : List (Scalar × Item ι)}
    (first : LeadsRow options graph [.scalar key, item] before code middle)
    (rest : LeadsEntries options graph entries middle more after) :
    LeadsEntries options graph ((key, item) :: entries) before
      (code ++ Opcode.setItem.code :: more) after := by
  intro stack marks heap ledger address keys present same sound here hasKeys
    distinct
  obtain ⟨_, added, between, met, run, progress,
    ⟨keyValue, _, rfl, keyShown, value, _, rfl, valueShown, rfl⟩, marked⟩ :=
      first (.object address :: stack) marks heap ledger same sound
  have still := progress.extends_.get here (by simp)
  have batchShown : List.Forall₂
      (EntryShownBy (Ledger.Has (ledger ++ added))) [(key, item)]
      [(keyValue, value)] := .cons ⟨keyShown, valueShown⟩ .nil
  have hasMore := hasKeys.append batchShown
    (marked.sublist (List.sublist_append_left [keyValue] [value]))
    progress.marks
  have inserted := fun within => run.append (.bare .setItem rfl
    (effect_setItem still (keyShown.checkHashable between) within))
  rw [List.append_cons]
  exact leads_entryBatch here hasMore distinct inserted met progress batchShown
    rest

theorem leads_setItems {batch entries : List (Scalar × Item ι)}
    (first : LeadsRow options graph (alternating batch) before code middle)
    (rest : LeadsEntries options graph entries middle more after) :
    LeadsEntries options graph (batch ++ entries) before
      (marked code .setItems ++ more) after := by
  intro stack marks heap ledger address keys present same sound here hasKeys
    distinct
  obtain ⟨values, added, between, met, run, progress, shown, marked⟩ :=
    first [] ((.object address :: stack) :: marks) heap ledger same sound
  have still := progress.extends_.get here (by simp)
  obtain ⟨pairs, paired, batchShown, sublist⟩ := pairUp?_alternating shown
  have hasMore := hasKeys.append batchShown (marked.sublist sublist)
    progress.marks
  have inserted (within : Entries.reach present pairs = pairs.length) :
      Executes options (Execution.marked code .setItems)
        ⟨.object address :: stack, marks, ledger.memo, heap⟩
        ⟨.object address :: stack, marks, Ledger.memo (ledger ++ added),
          between.set address (.dict false (Entries.merge present pairs))⟩ :=
    executes_marked run rfl (effect_setItems still paired
      (checkHashable_of_entriesShown between batchShown) within)
  exact leads_entryBatch here hasMore distinct inserted met progress batchShown
    rest

/-! ## All tasks -/

theorem leads_of_emits {task : Task ι}
    (emits : Emits graph task before code after) :
    Leads options graph task before code after := by
  induction emits with
  | scalar writes => exact leads_scalar writes
  | emptyTuple => exact leads_emptyTuple
  | sizedTuple isSize _ inner => exact leads_sizedTuple isSize inner
  | markedTuple _ inner => exact leads_markedTuple inner
  | list isList free binds _ inner => exact leads_list isList free binds inner
  | dict isDict free binds _ inner => exact leads_dict isDict free binds inner
  | again member fetches => exact leads_again member fetches
  | noItem => exact leads_noItem
  | nextItem _ _ first rest => exact leads_nextItem first rest
  | noAddition => exact leads_noAddition
  | append _ _ first rest => exact leads_append first rest
  | appends _ _ first rest => exact leads_appends first rest
  | noEntry => exact leads_noEntry
  | setItem _ _ first rest => exact leads_setItem first rest
  | setItems _ _ first rest => exact leads_setItems first rest

end Graph

end PickleGraph

/-!
## Copies of graphs

Decoding a depth-first encoding of a graph gives a copy of the graph. Two paths
through the copy end at one object exactly if they end at one list or mapping of
the graph.
-/

namespace PickleGraph.Graph

open Execution Decoding

variable {ι : Type} {graph : Graph ι}

/-! ## Places of nodes -/

namespace Ledger

variable {ledger : Ledger ι} {heap : Heap} {name other : ι}
variable {address further : Address}

theorem Has.address_unique (sound : ledger.Sound heap)
    (has : ledger.Has name address) (again : ledger.Has name further) :
    address = further := by
  obtain ⟨place, member, rfl, rfl⟩ := has
  obtain ⟨second, secondMember, sameName, rfl⟩ := again
  rw [List.inj_on_of_nodup_map sound.names secondMember member sameName]

theorem Has.name_unique (sound : ledger.Sound heap)
    (has : ledger.Has name address) (again : ledger.Has other address) :
    name = other := by
  obtain ⟨place, member, rfl, rfl⟩ := has
  obtain ⟨second, secondMember, rfl, sameAddress⟩ := again
  have distinct : (ledger.map (·.address)).Nodup :=
    sound.addresses.imp Nat.ne_of_lt
  rw [List.inj_on_of_nodup_map distinct secondMember member sameAddress]

/-- A node has got some place if it has been met. -/
noncomputable def place (ledger : Ledger ι) (name : ι) : Address :=
  open Classical in
  if met : ∃ address, ledger.Has name address then met.choose else 0

theorem Has.place_eq (sound : ledger.Sound heap)
    (has : ledger.Has name address) : ledger.place name = address := by
  have met : ∃ address, ledger.Has name address := ⟨address, has⟩
  rw [place, dif_pos met]
  exact met.choose_spec.address_unique sound has

end Ledger

/-- A ledger in which every node is complete tells the places of a copy. -/
theorem copiedTo_of_complete {heap : Heap} {value : Value}
    {ledger : Ledger ι} (sound : ledger.Sound heap)
    (complete : ∀ place ∈ ledger,
      (graph.node place.name).ShownAt ledger.Has heap place.address)
    (shown : graph.root.ShownBy ledger.Has value) :
    graph.CopiedTo heap value ledger.place := by
  have standing : ∀ name address, ledger.Has name address →
      ledger.place name = address :=
    fun _ _ has => has.place_eq sound
  have nodes : ∀ name address, ledger.Has name address →
      (graph.node name).ShownAt ledger.Has heap address := by
    rintro _ _ ⟨place, member, rfl, rfl⟩
    exact complete place member
  have met : ∀ name, graph.Reaches name →
      ∃ address, ledger.Has name address := by
    rintro name ⟨path, led⟩
    have related := rel_follow (fun _ name address _ => nodes name address)
      shown path
    rw [led] at related
    generalize heap.follow path value = found at related
    cases related with
    | some nodeShown =>
        obtain ⟨address, has, _⟩ := nodeShown
        exact ⟨address, has⟩
  constructor
  · exact shown.mono standing
  · intro name reached
    obtain ⟨address, has⟩ := met name reached
    rw [standing name address has]
    exact (nodes name address has).mono rfl standing
  · intro name other reached otherReached same
    obtain ⟨address, has⟩ := met name reached
    obtain ⟨further, otherHas⟩ := met other otherReached
    rw [standing name address has, standing other further otherHas] at same
    subst same
    exact has.name_unique sound otherHas

/-! ## Decoding -/

theorem sound_nil : Ledger.Sound ([] : Ledger ι) .empty :=
  ⟨.nil, .nil, .nil, by simp⟩

/-- Decoding any depth-first encoding of a graph gives a copy of the graph, in
which paths meet where they meet in the graph. -/
theorem decode_emission {prelude_ code : Bytes} {bindings : Bindings ι}
    (options : Options) (isPrelude : Prelude prelude_)
    (emits : Emits graph (.row [graph.root]) [] code bindings)
    (rest : Bytes) :
    ∃ value heap,
      options.decode (prelude_ ++ code ++ Opcode.stop.code :: rest) =
          .ok (value, heap) ∧
        (∃ place, graph.CopiedTo heap value place) ∧
        ∀ path other : Path,
          (∃ address, heap.follow path value = some (.object address) ∧
              heap.follow other value = some (.object address)) ↔
            ∃ name, graph.follow path graph.root = some (.node name) ∧
              graph.follow other graph.root = some (.node name) := by
  have leads : LeadsRow options graph [graph.root] [] code bindings :=
    leads_of_emits emits
  obtain ⟨_, added, heap, _, run, progress, ⟨value, _, rfl, shown, rfl⟩, _⟩ :=
    leads [] [] .empty [] rfl sound_nil
  have copied : graph.CopiedTo heap value (Ledger.place added) :=
    copiedTo_of_complete progress.sound progress.complete shown
  exact ⟨value, heap, ((executes_prelude _ isPrelude).append run).decode rest,
    ⟨_, copied⟩, copied.sameEnd_iff⟩

/-- Twice a list that holds only itself. -/
def ouroboros : Graph Unit :=
  ⟨fun _ => .list [.node ()], .tuple [.node (), .node ()]⟩

/-- The list is written once, and its slot is fetched twice. -/
theorem decode_emission_ouroboros :
    ∃ value heap,
      Options.standard.decode
          ([] ++ [0x5D, 0x71, 0x00, 0x68, 0x00, 0x61, 0x68, 0x00, 0x86] ++
            Opcode.stop.code :: []) = .ok (value, heap) ∧
        (∃ place, ouroboros.CopiedTo heap value place) ∧
        ∀ path other : Path,
          (∃ address, heap.follow path value = some (.object address) ∧
              heap.follow other value = some (.object address)) ↔
            ∃ name, ouroboros.follow path ouroboros.root = some (.node name) ∧
              ouroboros.follow other ouroboros.root = some (.node name) := by
  have fetch : Fetches 0 [0x68, 0x00] := by
    have isGet : getWidth? .binGet = some 1 := rfl
    exact .number isGet (by decide)
  have bind : Binds ([] : Bindings Unit).length 0 [0x71, 0x00] := by
    have isPut : putWidth? .binPut = some 1 := rfl
    exact .number isPut (by decide)
  have free : Bindings.Free [] () 0 := ⟨by simp, by simp⟩
  have again : Emits ouroboros (.row [.node ()]) [((), 0)] [0x68, 0x00]
      [((), 0)] := .again List.mem_cons_self fetch
  have additions : Emits ouroboros (.additions [.node ()]) [((), 0)]
      [0x68, 0x00, 0x61] [((), 0)] := .append again .noAddition
  have list : Emits ouroboros (.row [.node ()]) []
      [0x5D, 0x71, 0x00, 0x68, 0x00, 0x61] [((), 0)] :=
    .list rfl free bind additions
  have items : Emits ouroboros (.row [.node (), .node ()]) []
      ([0x5D, 0x71, 0x00, 0x68, 0x00, 0x61] ++ ([0x68, 0x00] ++ []))
      [((), 0)] := .nextItem list (.nextItem again .noItem)
  have isPair : tupleSize? .tuple2 =
      some [Item.node (), Item.node ()].length := rfl
  have pair := Emits.sizedTuple isPair items
  exact decode_emission .standard .none pair []

end PickleGraph.Graph
