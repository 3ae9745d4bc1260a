import PickleGraph.Proofs.Machine.Batches
import PickleGraph.Proofs.Machine.Confined

/-!
# Failures without harm

An instruction that fails leaves behind what it has changed before. Almost all
make their changes last, so that a failure harms neither the memo nor an object
of the heap. One exception gives a placeholder its state before the payload is
read. The others add entries or members one after the other, and break off where a
key is nested too deep to be compared.
-/

namespace PickleGraph

open Actions

/-! ## Unharmed machines -/

theorem Heap.Extends.of_grows {allowed : Object → Prop} {before after : Heap}
    (growth : before.Grows allowed after) : Extends [] before after := by
  obtain ⟨added, objects, _⟩ := growth
  refine ⟨?_, fun address old _ => ?_⟩
  · rw [← Array.length_toList, ← Array.length_toList, objects,
      List.length_append]
    exact Nat.le_add_right _ _
  · have isOld : address < before.objects.toList.length := old
    unfold Heap.get Heap.get?
    rw [← Array.getElem?_toList, objects, List.getElem?_append_left isOld,
      Array.getElem?_toList]

/-- All objects of the heap are as they were. -/
def Source.Unharmed (before after : Source) : Prop :=
  Heap.Extends [] before.heap after.heap

instance : IsPreorder Source Source.Unharmed where
  refl source := .refl [] source.heap
  trans _ _ _ first second := Heap.Extends.trans first second (by simp)

theorem Source.admits_unharmed : Decoding.Admits Source.Unharmed where
  reading source _ _ := .refl [] source.heap
  growing _ _ growth := .of_grows growth
  apart _ _ _ unharmed := unharmed

/-- The memo and all objects of the heap are as they were. -/
structure Machine.Unharmed (before after : Machine) : Prop where
  memo : after.memo = before.memo
  objects : before.source.Unharmed after.source

instance : IsPreorder Machine Machine.Unharmed where
  refl machine := ⟨rfl, refl_of Source.Unharmed machine.source⟩
  trans _ _ _ first second :=
    ⟨second.memo.trans first.memo, trans_of Source.Unharmed first.objects
      second.objects⟩

namespace Execution

variable {α β : Type}

/-! ## Actions that do no harm -/

/-- The action does no harm, whether it succeeds or fails. -/
def Gentle (action : Execution α) : Prop :=
  Moves Machine.Unharmed action

/-- The action does no harm where it fails. -/
def Harmless (action : Execution α) : Prop :=
  ∀ machine failure after, action machine = .error failure after →
    machine.Unharmed after

namespace Gentle

theorem pure (result : α) : Gentle (Pure.pure result : Execution α) :=
  Moves.pure result

theorem throw (failure : Failure) :
    Gentle (MonadExcept.throw failure : Execution α) :=
  Moves.throw failure

theorem bind {action : Execution α} {next : α → Execution β}
    (first : Gentle action) (second : ∀ value, Gentle (next value)) :
    Gentle (action >>= next) :=
  Moves.bind first second

theorem of_still {action : Execution α} (still : Moves Machine.Still action) :
    Gentle action :=
  still.mono fun _ _ same =>
    ⟨same.memo, .of_objects_eq (congrArg Heap.objects same.heap)⟩

theorem decoding {action : Decoding α}
    (moves : Moves Source.Unharmed action) :
    Gentle (Execution.decoding action) := by
  intro machine
  have unharmed := moves machine.source
  unfold Execution.decoding
  split <;> next outcome =>
    rw [outcome] at unharmed
    exact ⟨rfl, unharmed⟩

theorem build {allowed : Object → Prop}
    {change : Heap → Except Failure (α × Heap)}
    (grows : ∀ heap, Heap.GrowsTo allowed heap (change heap)) :
    Gentle (Execution.decoding (Decoding.build change)) := by
  refine decoding fun source => ?_
  unfold Decoding.build
  split
  · next outcome => exact .of_grows (grows source.heap _ _ outcome)
  · exact refl_of Source.Unharmed source

theorem query (answer : Heap → Except Failure α) :
    Gentle (Execution.decoding (Decoding.query answer)) := by
  refine decoding (Moves.mono ?_ (Payload.quiet_query answer))
  rintro source _ rfl
  exact refl_of Source.Unharmed source

theorem alloc (object : Object) :
    Gentle (Execution.decoding (Decoding.alloc object)) :=
  decoding fun source => .alloc source.heap object

theorem pushNew (object : Object) : Gentle (Execution.pushNew object) :=
  .bind (alloc object) fun value => of_still (still_push value)

end Gentle

theorem of_proceed_error {action : Execution Unit} {machine after : Machine}
    {failure : Failure}
    (failed : execute.proceed action machine = .error failure after) :
    action machine = .error failure after := by
  cases outcome : action machine with
  | ok value middle =>
      rw [execute.proceed, bind_of_eq_ok outcome] at failed
      cases failed
  | error other middle =>
      rw [execute.proceed, bind_of_eq_error outcome] at failed
      cases failed
      rfl

namespace Harmless

theorem of_gentle {action : Execution α} (gentle : Gentle action) :
    Harmless action := by
  intro machine failure after failed
  have unharmed := gentle machine
  rw [failed] at unharmed
  exact unharmed

theorem of_still {action : Execution α} (still : Moves Machine.Still action) :
    Harmless action :=
  of_gentle (.of_still still)

/-- Whatever may change is changed last. -/
theorem bind {action : Execution α} {next : α → Execution β}
    (first : Gentle action) (second : ∀ value, Harmless (next value)) :
    Harmless (action >>= next) := by
  intro machine failure after failed
  have unharmed := first machine
  cases outcome : action machine with
  | ok value middle =>
      rw [outcome] at unharmed
      rw [bind_of_eq_ok outcome] at failed
      exact trans_of Machine.Unharmed unharmed
        (second value middle failure after failed)
  | error other middle =>
      rw [outcome] at unharmed
      rw [bind_of_eq_error outcome] at failed
      cases failed
      exact unharmed

theorem change (update : Machine → Machine) :
    Harmless (modify update : Execution Unit) := by
  rintro _ _ _ ⟨⟩

theorem setObject (address : Address) (object : Object) :
    Harmless (Execution.setObject address object) := by
  rintro _ _ _ ⟨⟩

theorem memoPut (slot : Nat) : Harmless (Execution.memoPut slot) :=
  bind (.of_still still_peek) fun _ => change _

/-! ## What instructions are composed of -/

theorem asking : Asking Gentle where
  pure := .pure
  throw := .throw
  bind := .bind
  heap := .of_still still_heap
  peek := .of_still still_peek

/-- Objects are written last. -/
theorem composing (registry : Registry) :
    Composing registry Gentle Harmless where
  toAsking := asking
  kept := of_gentle
  follow := bind
  proceed harmless machine failure after failed :=
    harmless machine failure after (of_proceed_error failed)
  push value := .of_still (still_push value)
  pop := .of_still still_pop
  popMany count := .of_still (still_popMany count)
  mark := .of_still (still_modify fun _ => ⟨rfl, rfl⟩)
  popMark := .of_still still_popMark
  alloc _ := .alloc _
  float number := by
    have grows : ∀ heap : Heap, Heap.GrowsTo Object.IsData heap
        (liftM (Except.ok (heap.float number) : Except Refusal _) :
          Except Failure (Value × Heap)) :=
      fun heap => .ok (.float heap number)
    exact .build grows
  instantiate type call := .build fun heap =>
    heap.growsTo_instance type call
  setObject address _ _ := setObject address _

/-! ## States -/

/-- A state is merged with the fields before the record is written. -/
theorem applyToTop : Harmless Execution.applyToTop := by
  refine bind (.of_still still_pop) fun state => ?_
  refine bind asking.peekObject fun target => ?_
  split
  · refine bind (.query _) fun filled => ?_
    rintro _ _ _ ⟨⟩
  · exact of_gentle (asking.wrongTarget .build)

theorem fillPlaceholder {options : Options} {nested : Decoding Value}
    (nestedMoves : Moves Source.Unharmed nested) (address : Address)
    (record : Record) :
    Harmless (Execution.fillPlaceholder options nested address record) := by
  unfold Execution.fillPlaceholder
  split
  · next layout _ =>
      have parallel : Decoding.Parallel nested nested _ _ :=
        Payload.parallel_materialize options layout record
      refine bind (.decoding (parallel.moves Source.admits_unharmed
        nestedMoves)) fun array => ?_
      exact bind (.of_still (still_replaceTop array)) fun _ => change _
  · exact of_gentle (.pure _)

end Harmless

/-! ## Additions that break off -/

/-- Questions leave the machine as it is. -/
theorem asking_eq : Asking (fun action => Moves Eq action) where
  pure := .pure
  throw := .throw
  bind := .bind
  heap _ := rfl
  peek := by
    rintro ⟨source, stack, marks, memo, protocol, offset, history⟩
    cases stack <;> rfl

/-- Either the question fails, or what follows it. -/
theorem bind_error_of_eq {action : Execution α} {next : α → Execution β}
    (asks : Moves Eq action) {machine after : Machine} {failure : Failure}
    (failed : (action >>= next) machine = .error failure after) :
    after = machine ∨ ∃ value, action machine = .ok value machine ∧
      next value machine = .error failure after := by
  have same := asks machine
  cases outcome : action machine with
  | error other middle =>
      rw [outcome] at same
      rw [bind_of_eq_error outcome] at failed
      cases failed
      exact .inl same.symm
  | ok value middle =>
      rw [outcome] at same
      obtain rfl : machine = middle := same
      rw [bind_of_eq_ok outcome] at failed
      exact .inr ⟨value, rfl, failed⟩

/-- A mapping before and after entries that have broken off: it holds those
before a key that cannot be compared. -/
inductive EntriesBreakOff (items : List Value) : Object → Object → Prop
  | dict {ordered : Bool} {present entries : List (Value × Value)} :
      pairUp? items = some entries →
      Entries.reach present entries < entries.length →
      EntriesBreakOff items (.dict ordered present)
        (.dict ordered (Entries.merge present
          (entries.take (Entries.reach present entries))))

/-- The same of a set and its members. -/
inductive MembersBreakOff (items : List Value) : Object → Object → Prop
  | set {present : List Value} :
      Members.reach present items < items.length →
      MembersBreakOff items (.set present)
        (.set (Members.merge present
          (items.take (Members.reach present items))))

/-- The additions to the object on top have broken off, and nothing else has
changed. -/
def IsInterrupted (breaksOff : Object → Object → Prop) (machine : Machine)
    (failure : Failure) (after : Machine) : Prop :=
  failure = .refused .recursion ∧ ∃ address below object,
    machine.stack = .object address :: below ∧
      breaksOff (machine.heap.get address) object ∧
      after = machine.withObject address object

theorem interrupted_of_filled {object : List α → Object} {additions : List α}
    {reach : Nat} {machine after : Machine} {address : Address}
    {failure : Failure} (bounded : reach ≤ additions.length)
    (failed : machine.filled address object additions reach =
      .error failure after) :
    failure = .refused .recursion ∧ reach < additions.length ∧
      after = machine.withObject address (object (additions.take reach)) := by
  unfold Machine.filled at failed
  split at failed
  · cases failed
  · next broken =>
      cases failed
      exact ⟨rfl, Nat.lt_of_le_of_ne bounded broken, rfl⟩

theorem peekObject?_eq_some {machine : Machine} {address : Address}
    {object : Object}
    (peeked : peekObject? machine = .ok (some (address, object)) machine) :
    (∃ below, machine.stack = .object address :: below) ∧
      machine.heap.get address = object := by
  obtain ⟨source, stack, marks, memo, protocol, offset, history⟩ := machine
  cases stack with
  | nil => cases peeked
  | cons top below =>
      cases top with
      | object target =>
          cases peeked
          exact ⟨⟨below, rfl⟩, rfl⟩
      | _ => cases peeked

theorem entriesOf_eq_ok {items : List Value} {machine : Machine}
    {entries : List (Value × Value)}
    (success : entriesOf items machine = .ok entries machine) :
    pairUp? items = some entries := by
  unfold entriesOf at success
  cases paired : pairUp? items with
  | none =>
      rw [paired] at success
      cases success
  | some pairs =>
      rw [paired] at success
      obtain ⟨_, _, _, success⟩ := bind_eq_ok_iff.mp success
      obtain ⟨_, _, _, success⟩ := bind_eq_ok_iff.mp success
      cases success
      rfl

theorem wrongTarget_error {opcode : Opcode} {machine after : Machine}
    {failure : Failure}
    (failed : (wrongTarget opcode : Execution Unit) machine =
      .error failure after) : after = machine := by
  have same := asking_eq.wrongTarget (α := Unit) opcode machine
  rw [failed] at same
  exact same.symm

theorem extendDict_error {opcode : Opcode} {items : List Value}
    {machine after : Machine} {failure : Failure}
    (failed : extendDict opcode items machine = .error failure after) :
    after = machine ∨
      IsInterrupted (EntriesBreakOff items) machine failure after := by
  rcases bind_error_of_eq asking_eq.peekObject failed with
    same | ⟨target, peeked, failed⟩
  · exact .inl same
  rcases target with none | ⟨address, object⟩
  · exact .inl (wrongTarget_error failed)
  cases object with
  | dict ordered present =>
      obtain ⟨⟨below, stack⟩, here⟩ := peekObject?_eq_some peeked
      rcases bind_error_of_eq (asking_eq.entriesOf items) failed with
        same | ⟨entries, checked, failed⟩
      · exact .inl same
      have outcome := setReached_eq machine address
        (fun added => .dict ordered (Entries.merge present added)) entries
        (Entries.reach present entries)
      obtain ⟨rfl, beyond, rfl⟩ := interrupted_of_filled
        (Entries.reach_le present entries) (outcome.symm.trans failed)
      refine .inr ⟨rfl, address, below, _, stack, ?_, rfl⟩
      rw [here]
      exact .dict (entriesOf_eq_ok checked) beyond
  | _ => exact .inl (wrongTarget_error failed)

/-- A single entry whose key cannot be compared is not added. -/
theorem eq_of_interrupted_entry {key value : Value} {machine after : Machine}
    {failure : Failure}
    (interrupted :
      IsInterrupted (EntriesBreakOff [key, value]) machine failure after) :
    after = machine := by
  obtain ⟨_, address, below, object, _, breaksOff, rfl⟩ := interrupted
  generalize here : machine.heap.get address = before at breaksOff
  cases breaksOff with
  | @dict ordered present entries paired beyond =>
      cases paired
      have none_ : Entries.reach present [(key, value)] = 0 :=
        Nat.lt_one_iff.mp beyond
      rw [none_]
      exact Machine.withObject_self here Object.noConfusion

section Steps

variable {options : Options} {nested : Decoding Value}

theorem harmless_setItem : Harmless (execute options nested .setItem) := by
  have composing := Harmless.composing options.registry
  refine composing.proceed (composing.follow composing.pop fun value => ?_)
  refine composing.follow composing.pop fun key => ?_
  intro machine failure after failed
  rcases extendDict_error failed with rfl | interrupted
  · exact refl_of Machine.Unharmed after
  · rw [eq_of_interrupted_entry interrupted]
    exact refl_of Machine.Unharmed machine

/-- An instruction does no harm where it fails if it is none that gives a state
or adds several entries or members. -/
theorem harmless_execute {instruction : Instruction}
    (noState : instruction ≠ .build) (noEntries : instruction ≠ .setItems)
    (noMembers : instruction ≠ .addItems) :
    Harmless (execute options nested instruction) := by
  have composing := Harmless.composing options.registry
  have still : ∀ {action : Execution Unit}, Moves Machine.Still action →
      Harmless (execute.proceed action) :=
    fun moves => composing.proceed (.of_still moves)
  cases instruction with
  | build => exact absurd rfl noState
  | setItems => exact absurd rfl noEntries
  | addItems => exact absurd rfl noMembers
  | setItem => exact harmless_setItem
  | stop => exact .of_still (.bind still_finish fun _ => .pure _)
  | protocol version => exact still (still_modify fun _ => ⟨rfl, rfl⟩)
  | frame size =>
      refine composing.proceed (.of_gentle (.decoding fun source => ?_))
      unfold Decoding.reading
      split <;> exact .refl [] source.heap
  | pushObject object =>
      exact composing.proceed (.of_gentle (.pushNew object))
  | pop =>
      refine still (.bind (fun _ => ⟨rfl, rfl⟩) fun machine => ?_)
      split
      · exact .bind still_popMark fun _ => .pure _
      · exact .bind still_pop fun _ => .pure _
  | get slot => exact still (.bind (still_memoGet slot) still_push)
  | put slot =>
      refine composing.proceed ?_
      split
      · exact .of_still (still_reject _)
      · exact .memoPut _
  | memoize =>
      exact composing.proceed (.bind (.of_still fun _ => ⟨rfl, rfl⟩)
        fun machine => .memoPut _)
  | _ => exact composing.execute_of_setReached trivial nofun

/-! ## Opcodes -/

end Steps

/-- A pickle inside comes across nothing that was there before. -/
theorem unharmed_nestedPickle (options : Options) :
    Moves Source.Unharmed (nestedPickle options) := by
  intro source
  have guards := guards_nestedPickle options source.heap [] source
    (.refl source.heap)
  cases outcome : nestedPickle options source with
  | ok value after =>
      rw [outcome] at guards
      exact Heap.Confines.grown guards
  | error failure after =>
      rw [outcome] at guards
      exact Heap.Confines.grown guards

end Execution

end PickleGraph
