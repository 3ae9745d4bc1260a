import PickleGraph.Proofs.Defect.Reader
import PickleGraph.Proofs.Machine.Governed
import PickleGraph.Proofs.Value.Key

/-!
# Instructions fail with defects

Under a registry whose types are all made into records, no instruction makes an
array. Then whatever a stream asks of its values is either done or a defect of
the stream, but for the slot of the memo whose number is too long to be shown, and
for keys that are nested too deep to be compared.
-/

namespace PickleGraph

open Actions

/-! ## Registries of records -/

/-- The strategies that make records of the arguments they are given. -/
inductive Strategy.MakesRecords : Strategy → Prop
  | generic (target : Text) (kind : RecordKind) :
      MakesRecords (.generic target kind)
  | extension (target : Text) (kind : RecordKind)
      (argumentNames stateNames : List Text) :
      MakesRecords (.extension target kind argumentNames stateNames)

/-- A registry of strategies that make records. -/
def Registry.MakesRecords (registry : Registry) : Prop :=
  ∀ key binding, (key, binding) ∈ registry.bindings →
    binding.strategy.MakesRecords

namespace Registry

theorem MakesRecords.resolve {registry : Registry}
    (makesRecords : registry.MakesRecords) {key : TypeKey}
    {strategy : Strategy} (resolved : registry.resolve key = .ok strategy) :
    strategy.MakesRecords := by
  unfold Registry.resolve at resolved
  split at resolved
  · next binding found =>
      cases resolved
      have bound : registry.bindings.lookup key = some binding := found
      obtain ⟨before, after, split, _⟩ := List.lookup_eq_some_iff.mp bound
      refine makesRecords key binding ?_
      rw [split]
      exact List.mem_append_right _ (List.mem_cons_self ..)
  · cases resolved

end Registry

/-! ## Simple heaps -/

namespace Heap.IsSimple

variable {registry : Registry} {heap : Heap}

theorem empty : Heap.empty.IsSimple registry :=
  ⟨.empty, fun _ => trivial⟩

theorem alloc (simple : heap.IsSimple registry) {object : Object}
    (isBound : object.IsBound registry) (isSimple : object.IsSimple) :
    (heap.alloc object).2.IsSimple registry := by
  refine ⟨simple.governed.grows (.alloc heap isBound), fun address => ?_⟩
  rw [Heap.get_alloc]
  split
  · exact isSimple
  · exact simple.objects address

theorem set (simple : heap.IsSimple registry) (address : Address)
    {object : Object} (isBound : object.IsBound registry)
    (isSimple : object.IsSimple) :
    (heap.set address object).IsSimple registry := by
  refine ⟨simple.governed.set address isBound, fun other => ?_⟩
  rw [Heap.get_set]
  split
  · exact isSimple
  · exact simple.objects other

theorem of_objects_eq {after : Heap} (simple : heap.IsSimple registry)
    (same : after.objects = heap.objects) : after.IsSimple registry := by
  have reads : ∀ address, after.get address = heap.get address := by
    intro address
    unfold Heap.get Heap.get?
    rw [same]
  refine ⟨fun address => ?_, fun address => ?_⟩
  · rw [reads]
    exact simple.governed address
  · rw [reads]
    exact simple.objects address

theorem not_array (simple : heap.IsSimple registry) {address : Address}
    {array : NdArray} : heap.get address ≠ .array array := by
  intro here
  have isSimple := simple.objects address
  rw [here] at isSimple
  exact isSimple

theorem checkHashable_object (simple : heap.IsSimple registry)
    (address : Address) :
    Rejects (· = Refusal.wrongType)
      (heap.checkHashable (.object address)) := by
  unfold Heap.checkHashable
  cases here : heap.get address with
  | record record => exact .ok _
  | typeRef reference => exact .ok _
  | plain => exact .ok _
  | view view =>
      have refusal : heap.viewRefusal view = .wrongType := by
        unfold Heap.viewRefusal
        split
        · next found => exact absurd found simple.not_array
        · rfl
      exact .error refusal
  | array array => exact absurd here simple.not_array
  | _ => exact .error rfl

mutual

/-- A value that is no key is refused for its type. -/
theorem checkHashable (simple : heap.IsSimple registry) (value : Value) :
    Rejects (· = Refusal.wrongType) (heap.checkHashable value) := by
  cases value with
  | tuple items =>
      rw [Heap.checkHashable]
      exact simple.checkItems items
  | object address => exact simple.checkHashable_object address
  | scalar type data =>
      cases type with
      | element kind size bigEndian unit =>
          cases kind with
          | void => exact .error rfl
          | _ => exact .ok _
      | subarray base shape => exact .ok _
      | struct fields size => exact .error rfl
  | _ => exact .ok _

theorem checkItems (simple : heap.IsSimple registry)
    (items : List Value) :
    Rejects (· = Refusal.wrongType)
      (Heap.checkHashable.checkItems heap items) := by
  cases items with
  | nil => exact .ok _
  | cons item rest =>
      rw [Heap.checkHashable.checkItems]
      exact .bind (simple.checkHashable item) fun _ _ =>
        simple.checkItems rest

end

/-- Whether a value is true is never refused. -/
theorem isTrue (simple : heap.IsSimple registry) (value : Value) :
    ∃ flag, heap.isTrue value = .ok flag := by
  unfold Heap.isTrue
  split
  · next address =>
      split
      · exact ⟨_, rfl⟩
      · next array here => exact absurd here simple.not_array
      · exact ⟨_, rfl⟩
  · exact ⟨_, rfl⟩

end Heap.IsSimple

/-! ## Instances and states -/

section Records

variable {registry : Registry} {heap : Heap} (length : Nat)

/-- An instance of a type is a new record. -/
theorem Heap.IsSimple.instantiate (simple : heap.IsSimple registry)
    (makesRecords : registry.MakesRecords) (type : Value) (call : Call) :
    match heap.instantiate type call with
    | .ok (_, after) => after.IsSimple registry
    | .error failure => failure.IsWithin length := by
  unfold Heap.instantiate
  cases found : heap.typeRef? type with
  | none => exact Failure.isWithin_ofCause length _
  | some reference =>
      obtain ⟨address, _, here⟩ := Heap.typeRef?_eq_some_iff.mp found
      have isBound := simple.governed.typeRef here
      have records := makesRecords.resolve isBound
      have makes : ∀ kind, reference.strategy.recordKind? = some kind →
          (reference.newRecord kind call heap).2.IsSimple registry := by
        intro kind isKind
        have recordBound : Object.IsBound registry (.record
            ⟨kind, reference.module, reference.name,
              reference.strategy.target, reference.strategy, call.args,
              reference.strategy.initialFields call⟩) :=
          ⟨isBound, rfl, isKind⟩
        exact simple.alloc recordBound trivial
      dsimp only
      unfold TypeRef.instantiate TypeRef.instantiateWith
      cases strategy : reference.strategy with
      | generic target kind =>
          dsimp only
          exact makes kind (by rw [strategy]; rfl)
      | extension target kind argumentNames stateNames =>
          dsimp only
          exact makes kind (by rw [strategy]; rfl)
      | array target layout =>
          rw [strategy] at records
          cases records
      | callable target function =>
          rw [strategy] at records
          cases records

theorem Record.rejects_mergeMapping (simple : heap.IsSimple registry)
    (record : Record) (state : Value) :
    Rejects (Failure.IsWithin length) (record.mergeMapping heap state) := by
  obtain ⟨flag, asked⟩ := simple.isTrue state
  unfold Record.mergeMapping
  rw [asked]
  refine .bind (.ok flag) fun flag _ => ?_
  split
  · split
    · exact .ok _
    · exact .error (Failure.isWithin_ofCause length _)
  · exact .ok _

theorem Record.rejects_mergeState (simple : heap.IsSimple registry)
    (record : Record) (state : Value) :
    Rejects (Failure.IsWithin length) (record.mergeState heap state) := by
  fun_induction Record.mergeState heap record state with
  | case1 state slots isMapping inner =>
      obtain ⟨flag, asked⟩ := simple.isTrue slots
      rw [asked]
      refine .bind (.ok flag) fun flag _ => ?_
      dsimp only
      split
      · exact .bind inner fun merged _ =>
          Record.rejects_mergeMapping length simple merged state
      · exact .bind (.ok _) fun merged _ =>
          Record.rejects_mergeMapping length simple merged state
  | case2 => exact Record.rejects_mergeMapping length simple _ _
  | case3 => exact Record.rejects_mergeMapping length simple _ _

theorem Record.rejects_applyState (simple : heap.IsSimple registry)
    (record : Record) (state : Value) :
    Rejects (Failure.IsWithin length) (record.applyState heap state) := by
  unfold Record.applyState
  split
  · split
    · exact .ok _
    · split
      · exact .ok _
      · exact .ok _
    · exact .error (Failure.isWithin_ofCause length _)
  · exact Record.rejects_mergeState length simple record state

end Records

/-! ## Machines -/

/-- A machine in the middle of a byte string, with a simple heap. -/
structure Machine.IsOn (length : Nat) (registry : Registry)
    (machine : Machine) : Prop where
  source : machine.source.IsOn length registry
  offset : machine.offset ≤ length

namespace Execution

variable {length : Nat} {registry : Registry} {α β : Type}
variable {values items : List Value}

/-- A defect within the input, or a comparison that has gone too deep for one of
the values. -/
def IsReported (values : List Value) (length : Nat) (failure : Failure) :
    Prop :=
  failure.IsWithin length ∨
    failure = .refused .recursion ∧ ∃ value ∈ values, value.IsDeep

/-- The action keeps the machine in the middle of the byte string, and where it
fails it names a defect, or one of the values is too deep a key. -/
abbrev Stays (values : List Value) (length : Nat) (registry : Registry)
    (action : Execution α) : Prop :=
  Meets (Machine.IsOn length registry) action
    (fun _ => Machine.IsOn length registry)
    (fun failure machine =>
      IsReported values length failure ∧ machine.offset ≤ length)

namespace Stays

theorem pure (result : α) :
    Stays values length registry (Pure.pure result : Execution α) :=
  Meets.pure fun _ here => here

theorem reject (cause : Cause) :
    Stays values length registry (Execution.reject cause : Execution α) :=
  Meets.throw fun _ here =>
    ⟨.inl (Failure.isWithin_ofCause length cause), here.offset⟩

theorem bind {action : Execution α} {next : α → Execution β}
    (first : Stays values length registry action)
    (second : ∀ value, Stays values length registry (next value)) :
    Stays values length registry (action >>= next) :=
  Meets.bind first second

theorem get_bind {next : Machine → Execution α}
    (rest : ∀ machine : Machine, machine.IsOn length registry →
      Stays values length registry (next machine)) :
    Stays values length registry (get >>= next) := by
  intro machine here
  exact rest machine here machine here

theorem heap_bind {next : Heap → Execution α}
    (rest : ∀ heap : Heap, heap.IsSimple registry →
      Stays values length registry (next heap)) :
    Stays values length registry (Execution.heap >>= next) := by
  intro machine here
  exact rest machine.heap here.source.heap machine here

theorem decoding {action : Decoding α} {ends : α → Prop}
    (meets : Meets (Source.IsOn length registry) action
      (fun result source => ends result ∧ source.IsOn length registry)
      (fun failure _ => failure.IsWithin length)) :
    Meets (Machine.IsOn length registry) (Execution.decoding action)
      (fun result machine => ends result ∧ machine.IsOn length registry)
      (fun failure machine =>
        IsReported values length failure ∧ machine.offset ≤ length) := by
  intro machine here
  have met := meets machine.source here.source
  unfold Execution.decoding
  cases outcome : action machine.source with
  | ok result source =>
      rw [outcome] at met
      exact ⟨met.1, met.2, here.offset⟩
  | error failure source =>
      rw [outcome] at met
      exact ⟨.inl met, here.offset⟩

/-! ### The stack, the marks and the memo -/

theorem set {machine : Machine} (isOn : machine.IsOn length registry) :
    Stays values length registry (MonadStateOf.set machine : Execution PUnit) :=
  fun _ _ => isOn

theorem change {update : Machine → Machine}
    (kept : ∀ machine : Machine, machine.IsOn length registry →
      (update machine).IsOn length registry) :
    Stays values length registry (modify update : Execution Unit) :=
  Meets.change kept

theorem push (value : Value) :
    Stays values length registry (Execution.push value) :=
  change fun _ here => ⟨here.source, here.offset⟩

theorem pop : Stays values length registry Execution.pop := by
  refine .get_bind fun machine here => ?_
  split
  · exact .reject _
  · exact .bind (set ⟨here.source, here.offset⟩) fun _ => .pure _

theorem peek : Stays values length registry Execution.peek := by
  refine .get_bind fun machine here => ?_
  split
  · exact .reject _
  · exact .pure _

theorem popMany (count : Nat) :
    Stays values length registry (Execution.popMany count) := by
  refine .get_bind fun machine here => ?_
  split
  · exact .reject _
  · exact .bind (set ⟨here.source, here.offset⟩) fun _ => .pure _

theorem replaceTop (value : Value) :
    Stays values length registry (Execution.replaceTop value) :=
  .bind pop fun _ => push value

theorem mark : Stays values length registry Execution.mark :=
  change fun _ here => ⟨here.source, here.offset⟩

theorem popMark : Stays values length registry Execution.popMark := by
  refine .get_bind fun machine here => ?_
  split
  · exact .reject _
  · exact .bind (set ⟨here.source, here.offset⟩) fun _ => .pure _

theorem memoPut (slot : Nat) :
    Stays values length registry (Execution.memoPut slot) :=
  .bind peek fun _ => change fun _ here => ⟨here.source, here.offset⟩

/-! ### The heap -/

theorem heap : Stays values length registry Execution.heap :=
  fun _ here => here

theorem alloc {object : Object} (isBound : object.IsBound registry)
    (isSimple : object.IsSimple) :
    Stays values length registry (Execution.decoding (Decoding.alloc object)) :=
  fun _ here => ⟨⟨here.source.reader,
    here.source.heap.alloc isBound isSimple⟩, here.offset⟩

theorem pushNew {object : Object} (isBound : object.IsBound registry)
    (isSimple : object.IsSimple) :
    Stays values length registry (Execution.pushNew object) :=
  .bind (alloc isBound isSimple) push

theorem setObject (address : Address) {object : Object}
    (isBound : object.IsBound registry) (isSimple : object.IsSimple) :
    Stays values length registry (Execution.setObject address object) :=
  fun _ here => ⟨⟨here.source.reader,
    here.source.heap.set address isBound isSimple⟩, here.offset⟩

theorem checkHashable {heap : Heap} (simple : heap.IsSimple registry)
    (items : List Value) :
    Stays values length registry (Execution.checkHashable heap items) := by
  induction items with
  | nil => exact .pure _
  | cons item rest inductionHypothesis =>
      refine .bind ?_ fun _ => inductionHypothesis
      have rejected := simple.checkHashable item
      dsimp only
      split
      · exact .pure _
      · exact .reject _
      · next refusal other failed =>
          exact absurd (rejected refusal failed) other

theorem widen {action : Execution α} (member : items ⊆ values)
    (stays : Stays items length registry action) :
    Stays values length registry action :=
  stays.mono (fun _ here => here) (fun _ _ ends => ends)
    (fun _ _ failed => ⟨failed.1.imp_right fun ⟨same, deep, isItem, isDeep⟩ =>
      ⟨same, deep, member isItem, isDeep⟩, failed.2⟩)

theorem checkReach {reach count : Nat}
    (short : reach ≠ count → ∃ value ∈ values, value.IsDeep) :
    Stays values length registry (Execution.checkReach reach count) := by
  unfold Execution.checkReach
  split
  · exact .pure _
  · next beyond =>
      exact Meets.throw fun _ here =>
        ⟨.inr ⟨rfl, short beyond⟩, here.offset⟩

theorem keys_pairUp? {entries : List (Value × Value)}
    (paired : pairUp? items = some entries) :
    entries.map (·.1) ⊆ items := by
  fun_induction pairUp? items generalizing entries with
  | case1 =>
      cases paired
      exact List.nil_subset _
  | case2 key value rest inductionHypothesis =>
      obtain ⟨others, pairedRest, rfl⟩ := Option.map_eq_some_iff.mp paired
      have later := inductionHypothesis pairedRest
      rw [List.map_cons]
      grind
  | case3 => cases paired

/-- The keys of the entries are among the items that they are made of. -/
theorem entriesOf_bind {next : List (Value × Value) → Execution α}
    (rest : ∀ entries, Stays (entries.map (·.1)) length registry
      (next entries)) :
    Stays items length registry (Execution.entriesOf items >>= next) := by
  unfold Execution.entriesOf
  split
  · exact reject (α := α) _
  · next entries paired =>
      refine widen (keys_pairUp? paired) ?_
      rw [bind_assoc]
      refine .heap_bind fun heap simple => ?_
      rw [bind_assoc]
      refine .bind (checkHashable simple _) fun _ => ?_
      rw [pure_bind]
      exact rest entries

/-- The object that the top of the stack refers to is one of the heap. -/
theorem peekObject_bind
    {next : Option (Address × Object) → Execution α}
    (none : Stays values length registry (next none))
    (some : ∀ address object, object.IsBound registry →
      Stays values length registry (next (some (address, object)))) :
    Stays values length registry (peekObject? >>= next) := by
  unfold peekObject?
  rw [bind_assoc]
  refine .bind peek fun value => ?_
  split
  · rw [bind_assoc]
    refine .heap_bind fun heap simple => ?_
    exact some _ _ (simple.governed _)
  · exact none

theorem wrongTarget (opcode : Opcode) :
    Stays values length registry (Execution.wrongTarget opcode : Execution α) :=
  .bind heap fun _ => .bind peek fun _ => .reject _

theorem extendList (opcode : Opcode) (items : List Value) :
    Stays values length registry (Execution.extendList opcode items) := by
  refine .peekObject_bind (wrongTarget opcode) fun address object _ => ?_
  cases object with
  | list present => exact setObject _ trivial trivial
  | _ => exact wrongTarget opcode

theorem extendDict (opcode : Opcode) (items : List Value) :
    Stays items length registry (Execution.extendDict opcode items) := by
  refine .peekObject_bind (wrongTarget opcode) fun address object _ => ?_
  cases object with
  | dict ordered present =>
      refine .entriesOf_bind fun entries => ?_
      exact .bind (setObject _ trivial trivial) fun _ =>
        checkReach Entries.exists_isDeep_of_reach
  | _ => exact wrongTarget opcode

theorem extendSet (items : List Value) :
    Stays items length registry (Execution.extendSet items) := by
  refine .peekObject_bind (wrongTarget _) fun address object _ => ?_
  cases object with
  | set present =>
      refine .heap_bind fun heap simple => ?_
      refine .bind (checkHashable simple items) fun _ => ?_
      exact .bind (setObject _ trivial trivial) fun _ =>
        checkReach Members.exists_isDeep_of_reach
  | _ => exact wrongTarget _

/-! ### Types and instances -/

theorem pushType (module name : Text) :
    Stays values length registry
      (Execution.pushType registry module name) := by
  unfold Execution.pushType
  cases resolved : registry.resolve ⟨module, name⟩ with
  | error cause => exact .reject cause
  | ok strategy =>
      have isBound : TypeRef.IsBound registry ⟨module, name, strategy⟩ :=
        resolved
      exact pushNew isBound trivial

theorem instantiate (makesRecords : registry.MakesRecords) (type : Value)
    (call : Call) :
    Stays values length registry (Execution.instantiate type call) := by
  intro machine here
  have made := here.source.heap.instantiate length makesRecords type call
  unfold Execution.instantiate Execution.decoding Decoding.build
  dsimp only
  cases outcome : machine.source.heap.instantiate type call with
  | ok result =>
      rw [outcome] at made
      exact ⟨⟨here.source.reader, made⟩, here.offset⟩
  | error failure =>
      rw [outcome] at made
      exact ⟨.inl made, here.offset⟩

theorem argumentsOf (opcode : Opcode) (value : Value) :
    Stays values length registry (Execution.argumentsOf opcode value) := by
  unfold Execution.argumentsOf
  split
  · exact .pure _
  · exact .reject _

theorem instantiateNamed (makesRecords : registry.MakesRecords)
    (module name : Text) :
    Stays values length registry
      (Execution.instantiateNamed registry module name) := by
  unfold Execution.instantiateNamed
  cases resolved : registry.resolve ⟨module, name⟩ with
  | error cause => exact .reject cause
  | ok strategy =>
      have isBound : TypeRef.IsBound registry ⟨module, name, strategy⟩ :=
        resolved
      refine .bind popMark fun args => ?_
      refine .bind (alloc isBound trivial) fun type => ?_
      exact .bind (instantiate makesRecords type _) fun _ => .pure _

/-! ### States -/

/-- A state is given to a record of the registry, which is no placeholder. -/
theorem giveState (makesRecords : registry.MakesRecords)
    {options : Options} (nested : Decoding Value) :
    Stays values length registry (Execution.giveState options nested) := by
  refine .bind pop fun state => ?_
  refine .peekObject_bind (wrongTarget _) fun address object isBound => ?_
  cases object with
  | record record =>
      have applies : Meets (Source.IsOn length registry)
          (Decoding.query fun heap => record.applyState heap state)
          (fun given source => record.Refills given ∧
            source.IsOn length registry)
          (fun failure _ => failure.IsWithin length) := by
        intro source here
        have rejects := Record.rejects_applyState length here.heap record
          state
        unfold Decoding.query
        dsimp only
        cases outcome : record.applyState source.heap state with
        | ok given => exact ⟨Record.refills_applyState outcome, here⟩
        | error failure => exact rejects failure outcome
      refine Meets.bind (decoding applies) fun given => ?_
      rintro machine ⟨refills, here⟩
      have givenBound : given.IsBound registry :=
        Record.IsBound.refill isBound refills
      have records := makesRecords.resolve givenBound.strategy
      have stored : Object.IsBound registry (.record given) := givenBound
      refine Stays.bind (setObject address stored trivial) (fun _ => ?_)
        machine here
      split
      · next target layout isArray =>
          rw [isArray] at records
          cases records
      · exact .pure _
  | _ => exact wrongTarget _

/-! ### Buffers and the end -/

theorem showTop {view : MemoryView} (shaped : view.shape ≠ []) :
    Stays values length registry (protectTop.showTop view) :=
  .bind (alloc trivial shaped) replaceTop

theorem protectTop : Stays values length registry Execution.protectTop := by
  refine .bind peek fun top => ?_
  split
  · exact .pure _
  · refine .heap_bind fun heap simple => ?_
    split
    · exact showTop nofun
    · exact .pure _
    · next here => exact absurd here simple.not_array
    · exact wrongTarget _
  · exact wrongTarget _

theorem finish : Stays values length registry Execution.finish := by
  refine .get_bind fun machine here => ?_
  split
  · exact .reject _
  · split
    · exact .reject _
    · exact pop

theorem openFrame {size : Nat} (small : size ≤ Instruction.maxSize) :
    Stays values length registry
      (Execution.decoding (Decoding.reading (Reader.openFrame size))) := by
  intro machine here
  have opened := here.source.reader.openFrame small
  unfold Execution.decoding Decoding.reading
  cases outcome : machine.source.reader.openFrame size with
  | ok result reader =>
      rw [outcome] at opened
      exact ⟨⟨opened, here.source.heap⟩, here.offset⟩
  | error failure reader =>
      rw [outcome] at opened
      exact ⟨.inl opened, here.offset⟩

end Stays

/-! ## Values on the stack -/

/-- The action stays among the values that are on the stack when it starts. -/
abbrev StaysOnStack (length : Nat) (registry : Registry)
    (action : Execution α) : Prop :=
  ∀ machine : Machine, machine.IsOn length registry →
    EndsIn (fun _ after => after.IsOn length registry)
      (fun failure after =>
        IsReported machine.stack length failure ∧ after.offset ≤ length)
      (action machine)

namespace StaysOnStack

theorem popMark_bind {next : List Value → Execution α}
    (rest : ∀ items, Stays items length registry (next items)) :
    StaysOnStack length registry (popMark >>= next) := by
  rintro ⟨source, stack, marks, memo, protocol, offset, history⟩ here
  cases marks with
  | nil => exact (Stays.reject (α := α) _) _ here
  | cons below marks =>
      have stays := (rest stack.reverse).widen
        (List.reverse_subset.mpr (List.Subset.refl stack))
      exact stays ⟨source, below, marks, memo, protocol, offset, history⟩
        ⟨here.source, here.offset⟩

theorem pop_pop_bind {next : Value → Value → Execution α}
    (rest : ∀ value key, Stays [key, value] length registry
      (next value key)) :
    StaysOnStack length registry
      (pop >>= fun value => pop >>= fun key => next value key) := by
  rintro ⟨source, stack, marks, memo, protocol, offset, history⟩ here
  rcases stack with _ | ⟨value, _ | ⟨key, below⟩⟩
  · exact (Stays.reject (α := α) _) _ here
  · exact (Stays.reject (α := α) _) _ ⟨here.source, here.offset⟩
  · have stays : Stays (value :: key :: below) length registry
        (next value key) :=
      (rest value key).widen (by simp)
    exact stays ⟨source, below, marks, memo, protocol, offset, history⟩
      ⟨here.source, here.offset⟩

end StaysOnStack

/-! ## Instructions -/

/-- The instruction asks for a slot of the memo whose number is too long to be
shown in a message. -/
def AsksBeyond (instruction : Instruction) : Prop :=
  ∃ slot, instruction = .get slot ∧
    10 ^ Integer.maxDecimalDigits ≤ slot.natAbs

/-- The instructions that add keys to a mapping or members to a set. -/
inductive AddsKeys : Instruction → Prop
  | dict : AddsKeys .dict
  | frozenSet : AddsKeys .frozenSet
  | setItem : AddsKeys .setItem
  | setItems : AddsKeys .setItems
  | addItems : AddsKeys .addItems

/-- The instruction adds values on the stack as keys, of which one is nested too
deep. -/
def AddsDeep (instruction : Instruction) (stack : List Value) : Prop :=
  AddsKeys instruction ∧ ∃ value ∈ stack, value.IsDeep

/-- How an instruction may fail at a machine: with a defect, or because a slot is
missing that cannot be named, or because a key is too deep. -/
def FailsIn (length : Nat) (instruction : Instruction) (machine : Machine)
    (failure : Failure) : Prop :=
  failure.IsWithin length ∨
    failure = .refused .badValue ∧ AsksBeyond instruction ∨
    failure = .refused .recursion ∧ AddsDeep instruction machine.stack

/-- An instruction keeps the machine in the middle of the byte string, or fails
as it may. -/
abbrev StaysIn (length : Nat) (registry : Registry)
    (instruction : Instruction) (action : Execution α) : Prop :=
  ∀ machine : Machine, machine.IsOn length registry →
    EndsIn (fun _ after => after.IsOn length registry)
      (fun failure after =>
        FailsIn length instruction machine failure ∧ after.offset ≤ length)
      (action machine)

theorem isWithin_of_isReported_nil {failure : Failure}
    (reported : IsReported [] length failure) : failure.IsWithin length :=
  reported.resolve_right fun ⟨_, _, impossible, _⟩ =>
    List.not_mem_nil impossible

theorem Stays.staysIn {action : Execution α} (instruction : Instruction)
    (stays : Stays [] length registry action) :
    StaysIn length registry instruction action :=
  fun machine here => (stays machine here).weaken (fun _ _ ends => ends)
    fun _ _ failed => ⟨.inl (isWithin_of_isReported_nil failed.1), failed.2⟩

theorem StaysOnStack.staysIn {action : Execution Unit}
    {instruction : Instruction} (adds : AddsKeys instruction)
    (stays : StaysOnStack length registry action) :
    StaysIn length registry instruction (execute.proceed action) := by
  intro machine here
  have ends := stays machine here
  unfold execute.proceed
  cases outcome : action machine with
  | ok _ after =>
      rw [outcome] at ends
      rw [bind_of_eq_ok outcome]
      exact ends
  | error failure after =>
      rw [outcome] at ends
      rw [bind_of_eq_error outcome]
      obtain ⟨isWithin | ⟨same, deep⟩, offset⟩ := ends
      · exact ⟨.inl isWithin, offset⟩
      · exact ⟨.inr (.inr ⟨same, adds, deep⟩), offset⟩

theorem StaysIn.bind {instruction : Instruction} {action : Execution α}
    {next : α → Execution β}
    (first : StaysIn length registry instruction action)
    (second : ∀ value, Stays [] length registry (next value)) :
    StaysIn length registry instruction (action >>= next) := by
  intro machine here
  have ends := first machine here
  cases outcome : action machine with
  | ok value middle =>
      rw [outcome] at ends
      rw [bind_of_eq_ok outcome]
      exact (second value middle ends).weaken (fun _ _ ends => ends)
        fun _ _ failed =>
          ⟨.inl (isWithin_of_isReported_nil failed.1), failed.2⟩
  | error failure after =>
      rw [outcome] at ends
      rw [bind_of_eq_error outcome]
      exact ends

theorem staysIn_memoGet (slot : Int) :
    StaysIn length registry (.get slot) (memoGet slot) := by
  have gets : Meets (Machine.IsOn length registry) (memoGet slot)
      (fun _ => Machine.IsOn length registry)
      (fun failure machine =>
        (failure.IsWithin length ∨
          failure = .refused .badValue ∧ AsksBeyond (.get slot)) ∧
        machine.offset ≤ length) := by
    refine Meets.get fun machine here => ?_
    dsimp only
    split
    · exact Meets.pure fun _ same => same ▸ here
    · split
      · exact Meets.throw fun _ same =>
          ⟨.inl (Failure.isWithin_ofCause length _), same ▸ here.offset⟩
      · next large =>
          exact Meets.throw fun _ same =>
            ⟨.inr ⟨rfl, slot, rfl, Nat.le_of_not_lt large⟩,
              same ▸ here.offset⟩
  exact fun machine here => (gets machine here).weaken
    (fun _ _ ends => ends)
    fun _ _ failed => ⟨failed.1.imp_right .inl, failed.2⟩

theorem StaysIn.proceed {action : Execution Unit} {instruction : Instruction}
    (stays : Stays [] length registry action) :
    StaysIn length registry instruction (execute.proceed action) :=
  (Stays.bind stays fun _ => .pure _).staysIn instruction

section Instructions

variable {options : Options} (nested : Decoding Value)

theorem staysIn_pop :
    StaysIn length registry .pop (execute options nested .pop) := by
  refine .proceed (.get_bind fun machine here => ?_)
  split
  · exact .bind .popMark fun _ => .pure _
  · exact .bind .pop fun _ => .pure _

theorem staysIn_dict :
    StaysIn length registry .dict (execute options nested .dict) := by
  refine StaysOnStack.staysIn .dict (.popMark_bind fun items => ?_)
  refine .entriesOf_bind fun entries => ?_
  exact .bind (.checkReach Entries.exists_isDeep_of_reach) fun _ =>
    .pushNew trivial trivial

theorem staysIn_frozenSet :
    StaysIn length registry .frozenSet
      (execute options nested .frozenSet) := by
  refine StaysOnStack.staysIn .frozenSet (.popMark_bind fun items => ?_)
  refine .heap_bind fun heap simple => ?_
  refine .bind (.checkHashable simple items) fun _ => ?_
  exact .bind (.checkReach Members.exists_isDeep_of_reach) fun _ => .push _

theorem staysIn_get (slot : Int) :
    StaysIn length registry (.get slot)
      (execute options nested (.get slot)) := by
  refine StaysIn.bind (.bind (staysIn_memoGet slot) fun value => ?_)
    fun _ => .pure none
  exact .push value

theorem staysIn_stackGlobal :
    StaysIn length options.registry .stackGlobal
      (execute options nested .stackGlobal) := by
  refine .proceed (.bind .pop fun name => .bind .pop fun module => ?_)
  split
  · exact .pushType _ _
  · exact .reject _

variable (makesRecords : options.registry.MakesRecords)
include makesRecords

theorem staysIn_obj :
    StaysIn length options.registry .obj (execute options nested .obj) := by
  refine .proceed (.bind .popMark fun items => ?_)
  split
  · exact .reject _
  · exact .bind (.instantiate makesRecords _ _) .push

theorem staysIn_newObj :
    StaysIn length options.registry .newObj
      (execute options nested .newObj) := by
  refine .proceed (.bind .pop fun args => .bind .pop fun type => ?_)
  exact .bind (.argumentsOf _ args) fun args =>
    .bind (.instantiate makesRecords _ _) .push

theorem staysIn_newObjEx :
    StaysIn length options.registry .newObjEx
      (execute options nested .newObjEx) := by
  refine .proceed (.bind .pop fun named => .bind .pop fun args => ?_)
  refine .bind .pop fun type => .bind .heap fun heap => ?_
  split
  · exact .bind (.instantiate makesRecords _ _) .push
  · exact .reject _

theorem staysIn_reduce :
    StaysIn length options.registry .reduce
      (execute options nested .reduce) := by
  refine .proceed (.bind .pop fun args => .bind .peek fun type => ?_)
  exact .bind (.argumentsOf _ args) fun args =>
    .bind (.instantiate makesRecords _ _) .replaceTop

/-- An instruction fails with a defect, unless it asks for a slot beyond
showing or adds a key that is too deep. -/
theorem staysIn_execute {instruction : Instruction}
    (isModest : instruction.IsModest) :
    StaysIn length options.registry instruction
      (execute options nested instruction) := by
  cases instruction with
  | stop =>
      exact (Stays.bind .finish fun _ => .pure _).staysIn .stop
  | protocol version =>
      exact .proceed (.change fun _ here => ⟨here.source, here.offset⟩)
  | frame size => exact .proceed (.openFrame isModest)
  | push value => exact .proceed (.push value)
  | pushFloat number =>
      refine .proceed (.bind (fun machine here => ?_) fun value => .push value)
      exact ⟨⟨here.source.reader, here.source.heap.of_objects_eq
        (Heap.objects_float _ _)⟩, here.offset⟩
  | pushObject object =>
      exact .proceed (.pushNew isModest.1.isBound isModest.2)
  | mark => exact .proceed .mark
  | pop => exact staysIn_pop nested
  | popMark => exact .proceed (.bind .popMark fun _ => .pure _)
  | dup => exact .proceed (.bind .peek .push)
  | list =>
      exact .proceed (.bind .popMark fun items => .pushNew trivial trivial)
  | dict => exact staysIn_dict nested
  | tuple => exact .proceed (.bind .popMark fun items => .push _)
  | frozenSet => exact staysIn_frozenSet nested
  | tupleOf size => exact .proceed (.bind (.popMany size) fun _ => .push _)
  | append => exact .proceed (.bind .pop fun value => .extendList _ _)
  | appends => exact .proceed (.bind .popMark fun items => .extendList _ _)
  | setItem =>
      exact StaysOnStack.staysIn .setItem
        (.pop_pop_bind fun value key => .extendDict _ _)
  | setItems =>
      exact StaysOnStack.staysIn .setItems
        (.popMark_bind fun items => .extendDict _ items)
  | addItems =>
      exact StaysOnStack.staysIn .addItems (.popMark_bind .extendSet)
  | get slot => exact staysIn_get nested slot
  | put slot =>
      refine .proceed ?_
      split
      · exact .reject _
      · exact .memoPut _
  | memoize =>
      exact .proceed (.get_bind fun machine _ => .memoPut _)
  | «global» module name => exact .proceed (.pushType _ _)
  | stackGlobal => exact staysIn_stackGlobal nested
  | inst module name =>
      exact .proceed (.instantiateNamed makesRecords _ _)
  | obj => exact staysIn_obj nested makesRecords
  | newObj => exact staysIn_newObj nested makesRecords
  | newObjEx => exact staysIn_newObjEx nested makesRecords
  | reduce => exact staysIn_reduce nested makesRecords
  | build => exact .proceed (.giveState makesRecords nested)
  | readonlyBuffer => exact .proceed .protectTop

end Instructions

end Execution

end PickleGraph
