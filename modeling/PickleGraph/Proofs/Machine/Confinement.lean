import PickleGraph.Proofs.Decoding.Confinement
import PickleGraph.Proofs.Machine.Steps

/-!
# Confined machines

A machine whose stack and memo lead to no object of an earlier heap executes
every instruction, and every pickle inside, without coming across one. It leaves
all of them as they were.
-/

namespace PickleGraph

open Actions

/-! ## What is pushed -/

theorem Value.IsLeaf.addresses_eq {value : Value} (isLeaf : value.IsLeaf) :
    value.addresses = [] := by
  cases isLeaf <;> rfl

theorem Object.IsBlank.addresses_eq {object : Object}
    (isBlank : object.IsBlank) : object.addresses = [] := by
  cases isBlank <;> rfl

/-! ## Memos -/

namespace Memo

def addresses (memo : List (Nat × Value)) : List Address :=
  Values.addresses (memo.map (·.2))

theorem subset_of_lookup {memo : List (Nat × Value)} {slot : Nat}
    {value : Value} (found : memo.lookup slot = some value) :
    value.addresses ⊆ addresses memo := by
  obtain ⟨before, after, rfl, _⟩ := List.lookup_eq_some_iff.mp found
  exact Values.subset_of_mem (by simp)

theorem addresses_insert (slot : Nat) (value : Value)
    (memo : List (Nat × Value)) :
    addresses (insert slot value memo) ⊆
      value.addresses ++ addresses memo := by
  unfold addresses
  induction memo with
  | nil => simp [insert]
  | cons entry rest inductionHypothesis =>
      unfold insert
      split
      · simp only [List.map_cons, Values.addresses_cons]
        grind
      · simp only [List.map_cons, Values.addresses_cons]
        grind

theorem addresses_replace (address : Address) (value : Value)
    (memo : List (Nat × Value)) :
    addresses (replace address value memo) ⊆
      value.addresses ++ addresses memo := by
  unfold addresses replace
  induction memo with
  | nil => simp
  | cons entry rest inductionHypothesis =>
      simp only [List.map_cons, Values.addresses_cons]
      refine List.append_subset.mpr ⟨?_, ?_⟩
      · split
        · split
          · exact List.subset_append_left _ _
          · grind
        · grind
      · grind

end Memo

/-! ## Machines -/

namespace Machine

/-- The addresses that the stack, the marks and the memo mention. -/
def addresses (machine : Machine) : List Address :=
  Values.addresses machine.stack ++
    machine.marks.flatMap Values.addresses ++
    Memo.addresses machine.memo

/-- The machine and the values in hand stay beyond an earlier heap. -/
def IsConfined (start : Heap) (held : List Address) (machine : Machine) :
    Prop :=
  start.Confines (held ++ machine.addresses) machine.heap

theorem IsConfined.mono {start : Heap} {held fewer : List Address}
    {machine after : Machine} (confined : machine.IsConfined start held)
    (same : after.heap = machine.heap)
    (member : fewer ++ after.addresses ⊆ held ++ machine.addresses) :
    after.IsConfined start fewer := by
  have confines : start.Confines (fewer ++ after.addresses) machine.heap :=
    Heap.Confines.mono confined member
  rw [← same] at confines
  exact confines

end Machine

namespace Execution

open Machine

variable {α β : Type} {start : Heap} {held : List Address}
variable {shown : α → List Address}

/-- The action keeps a machine confined, together with its result. -/
def Guards (start : Heap) (held : List Address) (shown : α → List Address)
    (action : Execution α) : Prop :=
  Meets (fun machine : Machine => machine.IsConfined start held) action
    (fun result machine => machine.IsConfined start (shown result ++ held))
    (fun _ machine => machine.IsConfined start [])

/-- A guarded action whose result mentions nothing. -/
abbrev GuardsBare (start : Heap) (held : List Address)
    (action : Execution α) : Prop :=
  Guards start held (fun _ => []) action

namespace Guards

theorem pure {result : α} (member : shown result ⊆ held) :
    Guards start held shown (Pure.pure result) :=
  Meets.pure fun _ confined => confined.mono rfl (by grind)

theorem throw {failure : Failure} :
    Guards start held shown (MonadExcept.throw failure : Execution α) :=
  Meets.throw fun _ confined => confined.mono rfl (by simp)

theorem reject {cause : Cause} :
    Guards start held shown (Execution.reject cause : Execution α) :=
  throw

theorem bind {other : β → List Address} {action : Execution β}
    {next : β → Execution α} (first : Guards start held other action)
    (second : ∀ value, Guards start (other value ++ held) shown (next value)) :
    Guards start held shown (action >>= next) := by
  refine Meets.bind first fun value => (second value).mono
    (fun _ here => here) (fun result machine confined => ?_)
    (fun _ _ failed => failed)
  exact confined.mono rfl (by grind)

/-- What follows an action that gives nothing to hold. -/
theorem follow {action : Execution β} {next : β → Execution α}
    (first : GuardsBare start held action)
    (second : ∀ value, Guards start held shown (next value)) :
    Guards start held shown (action >>= next) :=
  bind first second

theorem change {update : Machine → Machine}
    (same : ∀ machine, (update machine).heap = machine.heap)
    (member : ∀ machine, (update machine).addresses ⊆
      held ++ machine.addresses) :
    GuardsBare start held (modify update) := by
  refine Meets.change fun machine confined => confined.mono (same machine) ?_
  have inHand := member machine
  grind

theorem decoding {action : Decoding α}
    (guards : ∀ further, held ⊆ further →
      Decoding.Guards start further shown action) :
    Guards start held shown (Execution.decoding action) := by
  intro machine confined
  have met := guards (held ++ machine.addresses)
    (List.subset_append_left _ _) machine.source confined
  unfold Execution.decoding
  cases outcome : action machine.source with
  | ok result source =>
      rw [outcome] at met
      have kept : start.Confines (shown result ++ (held ++ machine.addresses))
          source.heap := met
      rw [← List.append_assoc] at kept
      exact kept
  | error failure source =>
      rw [outcome] at met
      have kept : start.Confines (held ++ machine.addresses) source.heap := met
      exact kept.mono (List.subset_append_right _ _)

/-- From a machine that is known the action may have more in hand. -/
theorem here {machine : Machine} {further : List Address}
    {action : Execution α} (guards : Guards start further shown action)
    (confined : machine.IsConfined start further) (member : held ⊆ further) :
    Meets (· = machine) action
      (fun result machine => machine.IsConfined start (shown result ++ held))
      (fun _ machine => machine.IsConfined start []) := by
  refine guards.mono (fun _ same => same ▸ confined)
    (fun result machine ends => ends.mono rfl ?_) (fun _ _ failed => failed)
  grind

/-- What follows a look at the heap starts in this heap. -/
theorem heap_bind {next : Heap → Execution α}
    (rest : ∀ machine : Machine, machine.IsConfined start held →
      Meets (· = machine) (next machine.heap)
        (fun result machine =>
          machine.IsConfined start (shown result ++ held))
        (fun _ machine => machine.IsConfined start [])) :
    Guards start held shown (Execution.heap >>= next) :=
  fun machine confined => rest machine confined machine rfl

/-- What follows a look at the heap may be guarded whatever the heap. -/
theorem heap_follow {next : Heap → Execution α}
    (rest : ∀ heap, Guards start held shown (next heap)) :
    Guards start held shown (Execution.heap >>= next) :=
  fun machine confined => rest machine.heap machine confined

/-! ## The stack, the marks and the memo -/

theorem push {value : Value} (member : value.addresses ⊆ held) :
    GuardsBare start held (Execution.push value) := by
  refine change (fun _ => rfl) fun machine => ?_
  simp only [addresses, Values.addresses_cons]
  grind

theorem alloc {object : Object} (member : object.addresses ⊆ held) :
    Guards start held Value.addresses
      (Execution.decoding (Decoding.alloc object)) :=
  decoding fun _ wider => .alloc (List.Subset.trans member wider)

theorem pushNew {object : Object} (member : object.addresses ⊆ held) :
    GuardsBare start held (Execution.pushNew object) :=
  bind (alloc member) fun _ => push (List.subset_append_left _ _)

theorem pop : Guards start held Value.addresses Execution.pop := by
  intro machine confined
  obtain ⟨source, stack, marks, memo, protocol, offset, history⟩ := machine
  cases stack with
  | nil => exact EndsIn.error (confined.mono rfl (by simp))
  | cons top rest =>
      refine EndsIn.ok (confined.mono rfl ?_)
      simp only [addresses, Values.addresses_cons]
      grind

theorem peek : Guards start held Value.addresses Execution.peek := by
  intro machine confined
  obtain ⟨source, stack, marks, memo, protocol, offset, history⟩ := machine
  cases stack with
  | nil => exact EndsIn.error (confined.mono rfl (by simp))
  | cons top rest =>
      refine EndsIn.ok (confined.mono rfl ?_)
      simp only [addresses, Values.addresses_cons]
      grind

theorem popMany (count : Nat) :
    Guards start held Values.addresses (Execution.popMany count) := by
  intro machine confined
  by_cases short : machine.stack.length < count
  · rw [popMany_of_lt short]
    exact EndsIn.error (confined.mono rfl (by simp))
  · rw [popMany_of_le short]
    refine EndsIn.ok (confined.mono rfl ?_)
    have taken : Values.addresses (machine.stack.take count).reverse ⊆
        Values.addresses machine.stack :=
      Values.addresses_mono fun value member =>
        List.take_subset _ _ (List.mem_reverse.mp member)
    have dropped : Values.addresses (machine.stack.drop count) ⊆
        Values.addresses machine.stack :=
      Values.addresses_mono (List.drop_subset _ _)
    simp only [addresses]
    grind

theorem popMark : Guards start held Values.addresses Execution.popMark := by
  intro machine confined
  obtain ⟨source, stack, marks, memo, protocol, offset, history⟩ := machine
  cases marks with
  | nil => exact EndsIn.error (confined.mono rfl (by simp))
  | cons below rest =>
      refine EndsIn.ok (confined.mono rfl ?_)
      have reversed : Values.addresses stack.reverse ⊆
          Values.addresses stack :=
        Values.addresses_mono fun value member => List.mem_reverse.mp member
      simp only [addresses, List.flatMap_cons]
      grind

theorem mark : GuardsBare start held Execution.mark := by
  refine change (fun _ => rfl) fun machine => ?_
  simp only [addresses, Values.addresses_nil, List.flatMap_cons]
  grind

theorem replaceTop {value : Value} (member : value.addresses ⊆ held) :
    GuardsBare start held (Execution.replaceTop value) :=
  bind pop fun _ =>
    push (List.Subset.trans member (List.subset_append_right _ _))

theorem memoGet (slot : Int) :
    Guards start held Value.addresses (Execution.memoGet slot) := by
  refine Meets.get fun machine confined => ?_
  have failed : machine.IsConfined start [] := confined.mono rfl (by simp)
  dsimp only
  split
  · next value found =>
      have bound : machine.memo.lookup slot.toNat = some value := by
        split at found
        · cases found
        · exact found
      have shown := Memo.subset_of_lookup bound
      refine Meets.pure fun _ same => same ▸ confined.mono rfl ?_
      simp only [addresses]
      grind
  · split
    · exact Meets.throw fun _ same => same ▸ failed
    · exact Meets.throw fun _ same => same ▸ failed

theorem memoPut (slot : Nat) :
    GuardsBare start held (Execution.memoPut slot) := by
  refine bind peek fun value => change (fun _ => rfl) fun machine => ?_
  have inserted := Memo.addresses_insert slot value machine.memo
  simp only [addresses]
  grind

/-! ## Containers -/

theorem checkHashable (heap : Heap) (items : List Value) :
    GuardsBare start held (Execution.checkHashable heap items) := by
  induction items with
  | nil => exact pure (List.nil_subset _)
  | cons item rest inductionHypothesis =>
      refine follow ?_ fun _ => inductionHypothesis
      dsimp only
      split
      · exact pure (List.nil_subset _)
      · exact reject
      · exact throw

theorem addresses_pairUp? {items : List Value}
    {entries : List (Value × Value)} (paired : pairUp? items = some entries) :
    Entries.addresses entries ⊆ Values.addresses items := by
  fun_induction pairUp? items generalizing entries with
  | case1 =>
      cases paired
      exact List.Subset.refl _
  | case2 key value rest inductionHypothesis =>
      obtain ⟨others, pairedRest, rfl⟩ := Option.map_eq_some_iff.mp paired
      have later := inductionHypothesis pairedRest
      simp only [Entries.addresses_cons, Values.addresses_cons]
      grind
  | case3 => cases paired

theorem entriesOf {items : List Value}
    (member : Values.addresses items ⊆ held) :
    Guards start held Entries.addresses (Execution.entriesOf items) := by
  unfold Execution.entriesOf
  split
  · exact reject
  · next entries paired =>
      refine heap_follow fun heap => ?_
      refine bind (checkHashable _ _) fun _ => pure ?_
      exact List.Subset.trans (addresses_pairUp? paired) member

theorem checkReach (reach count : Nat) :
    GuardsBare start held (Execution.checkReach reach count) := by
  unfold Execution.checkReach
  split
  · exact pure (List.nil_subset _)
  · exact throw

/-- The object on top of the stack and what it mentions. -/
theorem peekObject :
    Guards start held
      (fun target : Option (Address × Object) =>
        target.elim [] fun (address, object) => address :: object.addresses)
      Execution.peekObject? := by
  refine bind peek fun top => ?_
  split
  · next address =>
      intro machine confined
      refine EndsIn.ok ?_
      have inHand : address ∈ (Value.object address).addresses ++ held ++
          machine.addresses := by
        simp
      refine Heap.Confines.mono (Heap.Confines.expose confined inHand) ?_
      simp only [Option.elim, Value.addresses_object]
      grind
  · exact pure (List.nil_subset _)

theorem wrongTarget (opcode : Opcode) :
    Guards start held shown (Execution.wrongTarget opcode : Execution α) :=
  heap_follow fun _ => bind peek fun _ => reject

theorem setObject {address : Address} {object : Object}
    (target : address ∈ held) (member : object.addresses ⊆ held) :
    GuardsBare start held (Execution.setObject address object) :=
  fun _ confined => Heap.Confines.set confined
    (List.mem_append_left _ target)
    (List.Subset.trans member (List.subset_append_left _ _))

theorem extendList {opcode : Opcode} {items : List Value}
    (member : Values.addresses items ⊆ held) :
    GuardsBare start held (Execution.extendList opcode items) := by
  refine bind peekObject fun target => ?_
  split
  · next address present =>
      refine setObject (by simp) ?_
      simp only [Object.addresses, Option.elim, Array.toList_append,
        Values.addresses_append]
      grind
  · exact wrongTarget opcode

theorem extendDict {opcode : Opcode} {items : List Value}
    (member : Values.addresses items ⊆ held) :
    GuardsBare start held (Execution.extendDict opcode items) := by
  refine bind peekObject fun target => ?_
  split
  · next address ordered present =>
      refine bind
        (entriesOf (List.Subset.trans member (List.subset_append_right _ _)))
        fun entries => .bind (setObject (by simp) ?_) fun _ => checkReach _ _
      have reached := Entries.addresses_mono
        (List.take_subset (Entries.reach present entries) entries)
      have merged := Entries.addresses_merge present
        (entries.take (Entries.reach present entries))
      simp only [Object.addresses, Option.elim]
      grind
  · exact wrongTarget opcode

theorem extendSet {items : List Value}
    (member : Values.addresses items ⊆ held) :
    GuardsBare start held (Execution.extendSet items) := by
  refine bind peekObject fun target => ?_
  split
  · next address present =>
      refine heap_follow fun _ => bind (checkHashable _ items) fun _ =>
        .bind (setObject (by simp) ?_) fun _ => checkReach _ _
      have reached := Values.addresses_mono
        (List.take_subset (Members.reach present items) items)
      have merged := Members.addresses_merge present
        (items.take (Members.reach present items))
      simp only [Object.addresses, Option.elim]
      grind
  · exact wrongTarget .addItems

/-! ## Types and instances -/

theorem pushType (registry : Registry) (module name : Text) :
    GuardsBare start held (Execution.pushType registry module name) := by
  unfold Execution.pushType
  split
  · exact pushNew (List.nil_subset _)
  · exact reject

theorem instantiate {type : Value} {call : Call}
    (member : call.addresses ⊆ held) :
    Guards start held Value.addresses (Execution.instantiate type call) :=
  decoding fun _ wider => .build fun _ =>
    Heap.gives_instantiate type (List.Subset.trans member wider)

theorem argumentsOf {opcode : Opcode} {value : Value}
    (member : value.addresses ⊆ held) :
    Guards start held Values.addresses
      (Execution.argumentsOf opcode value) := by
  unfold Execution.argumentsOf
  split
  · rw [Value.addresses_tuple] at member
    exact pure member
  · exact reject

theorem addresses_ofArgs (args : List Value) :
    (Call.ofArgs args).addresses = Values.addresses args :=
  List.append_nil _

theorem instantiateNamed (registry : Registry) (module name : Text) :
    GuardsBare start held
      (Execution.instantiateNamed registry module name) := by
  unfold Execution.instantiateNamed
  split
  · exact reject
  · refine bind popMark fun args => ?_
    refine bind (alloc (List.nil_subset _)) fun type => ?_
    have member : (Call.ofArgs args).addresses ⊆
        type.addresses ++ (Values.addresses args ++ held) := by
      rw [addresses_ofArgs]
      grind
    exact bind (instantiate member) fun _ => pure (List.nil_subset _)

/-! ## States -/

/-- The record that has got a state, and what it mentions now. -/
theorem applyToTop :
    Guards start held
      (fun target : Address × Record => target.1 :: target.2.addresses)
      Execution.applyToTop := by
  refine bind pop fun state => bind peekObject fun target => ?_
  split
  · next address record =>
      have applies : Guards start
          ((address :: record.addresses) ++ (state.addresses ++ held))
          Record.addresses
          (Execution.decoding
            (Decoding.query fun heap => record.applyState heap state)) := by
        refine decoding fun further wider source confines => ?_
        have inRecord : record.addresses ⊆ further := by grind
        have inState : state.addresses ⊆ further := by grind
        cases applied : record.applyState source.heap state with
        | ok after =>
            simp only [Decoding.query, applied]
            exact Record.confines_applyState confines inRecord inState applied
        | error failure =>
            simp only [Decoding.query, applied]
            exact confines
      refine bind applies fun after => ?_
      refine bind (setObject (by simp) (List.subset_append_left _ _))
        fun _ => pure ?_
      simp only [Option.elim]
      grind
  · exact wrongTarget .build

theorem fillPlaceholder {options : Options} {nested : Decoding Value}
    (guardsNested : ∀ held,
      Decoding.Guards start held Value.addresses nested)
    (address : Address) (record : Record) :
    GuardsBare start held
      (Execution.fillPlaceholder options nested address record) := by
  unfold Execution.fillPlaceholder
  split
  · next layout _ =>
      refine bind (decoding fun further _ =>
        Payload.guards_materialize guardsNested options layout record)
        fun array => ?_
      refine bind (replaceTop (List.subset_append_left _ _)) fun _ => ?_
      refine change (fun _ => rfl) fun machine => ?_
      have replaced := Memo.addresses_replace address array machine.memo
      simp only [addresses]
      grind
  · exact pure (List.nil_subset _)

/-! ## Buffers and the end -/

theorem protectTop : GuardsBare start held Execution.protectTop := by
  have showTop : ∀ (view : MemoryView) (held : List Address),
      view.source ∈ held →
      GuardsBare start held (Execution.protectTop.showTop view) := by
    intro view held member
    have mentions : (Object.view view).addresses ⊆ held := by
      simpa [Object.addresses] using member
    exact bind (alloc mentions) fun value =>
      replaceTop (List.subset_append_left _ _)
  refine bind peek fun top => ?_
  split
  · exact pure (List.nil_subset _)
  · refine heap_follow fun heap => ?_
    split
    · exact showTop _ _ (by simp)
    · exact pure (List.nil_subset _)
    · split
      · exact wrongTarget _
      · split
        · exact throw
        · split
          · exact showTop _ _ (by simp)
          · exact pure (List.nil_subset _)
    · exact wrongTarget _
  · exact wrongTarget _

theorem finish : Guards start held Value.addresses Execution.finish := by
  refine Meets.get fun machine confined => ?_
  have failed : machine.IsConfined start [] := confined.mono rfl (by simp)
  split
  · exact Meets.throw fun _ same => same ▸ failed
  · split
    · exact Meets.throw fun _ same => same ▸ failed
    · exact fun _ same => pop _ (same ▸ confined)

end Guards

end Execution

end PickleGraph
