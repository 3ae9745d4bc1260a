import PickleGraph.Machine.Execution
import PickleGraph.Proofs.Decoding.Parallel
import PickleGraph.Proofs.Machine.Composition

/-!
# Stationary instructions

Only the opening of a frame and the payload of a placeholder move the reader of
a machine. Every other instruction does the same wherever the machine stands in
its input: neither its outcome nor its effect depends on the reader, on the
offset or on the history. Most instructions do not look at the memo either: they
do the same beside any change of it. What moves values between the stack and the
marks and looks at the heap and at the memo leaves these as they are.
-/

namespace PickleGraph

open Actions

namespace Machine

/-- The contents of a machine at the place of another one. -/
def standingAt (machine place : Machine) : Machine :=
  { machine with
    source := ⟨place.source.reader, machine.source.heap⟩
    offset := place.offset
    history? := place.history? }

@[simp] theorem standingAt_self (machine : Machine) :
    machine.standingAt machine = machine :=
  rfl

/-- A change of what stands beside the stack, the marks and the heap. -/
structure Change where
  reader : Reader → Reader
  memo : List (Nat × Value) → List (Nat × Value)
  offset : Nat → Nat
  history? : Option (List Moment) → Option (List Moment)

def changed (machine : Machine) (change : Change) : Machine :=
  { machine with
    source := ⟨change.reader machine.source.reader, machine.source.heap⟩
    memo := change.memo machine.memo
    offset := change.offset machine.offset
    history? := change.history? machine.history? }

/-- The change to the place of another machine. -/
def Change.place (place : Machine) : Change where
  reader _ := place.source.reader
  memo memo := memo
  offset _ := place.offset
  history? _ := place.history?

/-- The change leaves the memo alone. -/
def Change.KeepsMemo (change : Change) : Prop :=
  ∀ memo, change.memo memo = memo

/-- The change leaves the place in the input alone. -/
structure Change.KeepsPlace (change : Change) : Prop where
  reader : ∀ reader, change.reader reader = reader
  offset : ∀ offset, change.offset offset = offset

end Machine

namespace Execution

/-! ## Giving a state in two parts -/

/-- Gives the record on top of the stack the state above it. -/
def applyToTop : Execution (Address × Record) := do
  let state ← pop
  match ← peekObject? with
  | some (address, .record record) => do
      let record ← decoding
        (Decoding.query fun heap => record.applyState heap state)
      setObject address (.record record)
      return (address, record)
  | _ => wrongTarget .build

/-- Puts an array on top of the stack, and in the memo wherever it holds the
object at the address. -/
def putArray (address : Address) (array : Value) : Execution Unit := do
  replaceTop array
  modify fun machine =>
    { machine with memo := Memo.replace address array machine.memo }

/-- Puts the array that a placeholder stands for in its place. -/
def fillPlaceholder (options : Options) (nested : Decoding Value)
    (address : Address) (record : Record) : Execution Unit := do
  match record.strategy with
  | .array _ layout => do
      let array ← decoding (materialize options nested layout record)
      replaceTop array
      modify fun machine =>
        { machine with memo := Memo.replace address array machine.memo }
  | _ => return

theorem wrongTarget_bind {α β : Type} (opcode : Opcode)
    (next : α → Execution β) :
    wrongTarget opcode >>= next = wrongTarget opcode := by
  unfold wrongTarget
  simp only [bind_assoc]
  rfl

theorem giveState_eq (options : Options) (nested : Decoding Value) :
    giveState options nested =
      applyToTop >>= fun (address, record) =>
        fillPlaceholder options nested address record := by
  unfold giveState applyToTop
  rw [bind_assoc]
  congr 1
  funext state
  rw [bind_assoc]
  congr 1
  funext target
  rcases target with _ | ⟨address, object⟩
  · exact (wrongTarget_bind _ _).symm
  · cases object with
    | record record =>
        simp only [bind_assoc, pure_bind]
        rfl
    | _ => exact (wrongTarget_bind _ _).symm

theorem applyToTop_of_eq {machine : Machine} {state : Value}
    {address : Address} {rest : List Value} {record filled : Record}
    (stack : machine.stack = state :: .object address :: rest)
    (here : machine.heap.get address = .record record)
    (applied : record.applyState machine.heap state = .ok filled) :
    applyToTop machine =
      .ok (address, filled)
        { machine with
          source := { machine.source with
            heap := machine.heap.set address (.record filled) }
          stack := .object address :: rest } := by
  obtain ⟨source, _, marks, memo, protocol, offset, history⟩ := machine
  cases stack
  have answered : source.heap.get address = .record record := here
  have queried : record.applyState source.heap state = .ok filled := applied
  unfold applyToTop
  refine bind_eq_ok_iff.mpr ⟨state, _, rfl, ?_⟩
  refine bind_eq_ok_iff.mpr
    ⟨some (address, source.heap.get address), _, rfl, ?_⟩
  rw [answered]
  refine bind_eq_ok_iff.mpr
    ⟨filled, ⟨source, .object address :: rest, marks, memo, protocol, offset,
      history⟩, ?_, rfl⟩
  simp only [decoding, Decoding.query, queried]

/-- A state that the record on top of the stack refuses changes no object. -/
theorem giveState_of_applyState_error {options : Options}
    {nested : Decoding Value} {machine : Machine} {state : Value}
    {address : Address} {rest : List Value} {record : Record}
    {failure : Failure}
    (stack : machine.stack = state :: .object address :: rest)
    (here : machine.heap.get address = .record record)
    (refused : record.applyState machine.heap state = .error failure) :
    giveState options nested machine =
      .error failure { machine with stack := .object address :: rest } := by
  obtain ⟨source, _, marks, memo, protocol, offset, history⟩ := machine
  cases stack
  have answered : source.heap.get address = .record record := here
  have queried : record.applyState source.heap state = .error failure :=
    refused
  let opened : Machine := ⟨source, .object address :: rest, marks, memo,
    protocol, offset, history⟩
  have popped : pop ⟨source, state :: .object address :: rest, marks, memo,
      protocol, offset, history⟩ = .ok state opened := rfl
  have peeked : peekObject? opened =
      .ok (some (address, .record record)) opened := by
    rw [← answered]
    rfl
  unfold giveState
  rw [bind_of_eq_ok popped, bind_of_eq_ok peeked]
  refine bind_of_eq_error ?_
  simp only [decoding, Decoding.query, opened, queried]

theorem fillPlaceholder_of_eq {options : Options} {nested : Decoding Value}
    {machine : Machine} (address : Address) {record : Record} {target : Text}
    {layout : ArrayLayout} {top value : Value} {rest : List Value}
    {after : Source}
    (strategy : record.strategy = .array target layout)
    (stack : machine.stack = top :: rest)
    (read : materialize options nested layout record machine.source =
      .ok value after) :
    fillPlaceholder options nested address record machine =
      .ok ()
        { machine with
          source := after
          stack := value :: rest
          memo := Memo.replace address value machine.memo } := by
  obtain ⟨source, _, marks, memo, protocol, offset, history⟩ := machine
  cases stack
  have placed : decoding (materialize options nested layout record)
      ⟨source, top :: rest, marks, memo, protocol, offset, history⟩ =
        .ok value ⟨after, top :: rest, marks, memo, protocol, offset,
          history⟩ := by
    have read : materialize options nested layout record source =
      .ok value after := read
    simp only [decoding, read]
  unfold fillPlaceholder
  rw [strategy]
  exact bind_eq_ok_iff.mpr ⟨value, _, placed, rfl⟩

theorem fillPlaceholder_of_error {options : Options}
    {nested : Decoding Value} {machine : Machine} (address : Address)
    {record : Record} {target : Text} {layout : ArrayLayout}
    {failure : Failure} {after : Source}
    (strategy : record.strategy = .array target layout)
    (failed : materialize options nested layout record machine.source =
      .error failure after) :
    fillPlaceholder options nested address record machine =
      .error failure { machine with source := after } := by
  have undone : decoding (materialize options nested layout record) machine =
      .error failure { machine with source := after } := by
    simp only [decoding, failed]
  unfold fillPlaceholder
  rw [strategy]
  exact bind_of_eq_error undone

/-! ## Actions that overlook a change -/

/-- An action that does the same beside the change. -/
def Overlooks {α : Type} (change : Machine.Change)
    (action : Execution α) : Prop :=
  ∀ machine : Machine,
    action (machine.changed change) =
      match action machine with
      | .ok result after => .ok result (after.changed change)
      | .error failure after => .error failure (after.changed change)

theorem popMany_of_lt {count : Nat} {machine : Machine}
    (short : machine.stack.length < count) :
    popMany count machine = reject .underflow machine := by
  rw [popMany, get_bind, if_pos short]

theorem popMany_of_le {count : Nat} {machine : Machine}
    (long : ¬ machine.stack.length < count) :
    popMany count machine =
      .ok (machine.stack.take count).reverse
        { machine with stack := machine.stack.drop count } := by
  rw [popMany, get_bind, if_neg long]
  rfl

namespace Overlooks

variable {α β : Type} {change : Machine.Change}

theorem pure (result : α) :
    Overlooks change (Pure.pure result : Execution α) :=
  fun _ => rfl

theorem throw (failure : Failure) :
    Overlooks change (MonadExcept.throw failure : Execution α) :=
  fun _ => rfl

theorem reject (cause : Cause) :
    Overlooks change (Execution.reject cause : Execution α) :=
  fun _ => rfl

theorem bind_of_returns {property : α → Prop} {action : Execution α}
    {next : α → Execution β} (first : Overlooks change action)
    (returns : Returns property action)
    (second : ∀ value, property value → Overlooks change (next value)) :
    Overlooks change (action >>= next) := by
  intro machine
  have moved := first machine
  cases outcome : action machine with
  | ok value middle =>
      rw [outcome] at moved
      rw [bind_of_eq_ok moved, bind_of_eq_ok outcome]
      exact second value (returns machine value middle outcome) middle
  | error failure middle =>
      rw [outcome] at moved
      rw [bind_of_eq_error moved, bind_of_eq_error outcome]

theorem bind {action : Execution α} {next : α → Execution β}
    (first : Overlooks change action)
    (second : ∀ value, Overlooks change (next value)) :
    Overlooks change (action >>= next) :=
  .bind_of_returns first (fun _ _ _ _ => trivial) fun value _ => second value

/-- A look at the parts of a machine that are not changed. -/
theorem get {next : Machine → Execution β}
    (same : ∀ machine : Machine,
      next (machine.changed change) = next machine)
    (second : ∀ machine, Overlooks change (next machine)) :
    Overlooks change (MonadState.get >>= next) := by
  intro machine
  have moved := second machine machine
  rw [← same machine] at moved
  rw [get_bind, get_bind, same, ← same machine]
  exact moved

theorem modify {update : Machine → Machine}
    (commutes : ∀ machine : Machine,
      update (machine.changed change) = (update machine).changed change) :
    Overlooks change (modify update : Execution Unit) := by
  intro machine
  exact congrArg _ (commutes machine)

/-! ## The source -/

theorem decoding (keepsPlace : change.KeepsPlace) (action : Decoding α) :
    Overlooks change (Execution.decoding action) := by
  intro machine
  have same : ∀ source,
      { machine with source }.changed change =
        { machine.changed change with source } := by
    intro source
    rw [Machine.changed, keepsPlace.reader]
    rfl
  have sameSource : (machine.changed change).source = machine.source := by
    rw [Machine.changed, keepsPlace.reader]
  unfold Execution.decoding
  rw [sameSource]
  cases action machine.source with
  | ok result source => exact congrArg _ (same source).symm
  | error failure source => exact congrArg _ (same source).symm

theorem build (update : Heap → Except Failure (α × Heap)) :
    Overlooks change (Execution.decoding (Decoding.build update)) := by
  intro machine
  simp only [Execution.decoding, Decoding.build, Machine.changed]
  cases update machine.source.heap with
  | ok result => rfl
  | error failure => rfl

theorem query (answer : Heap → Except Failure α) :
    Overlooks change (Execution.decoding (Decoding.query answer)) := by
  rw [Decoding.query_eq_build]
  exact build _

theorem alloc (object : Object) :
    Overlooks change (Execution.decoding (Decoding.alloc object)) := by
  rw [Decoding.alloc_eq_build]
  exact build _

theorem setObject (address : Address) (object : Object) :
    Overlooks change (Execution.setObject address object) :=
  fun _ => rfl

theorem heap : Overlooks change Execution.heap :=
  fun _ => rfl

/-! ## The stack, the marks and the memo -/

theorem push (value : Value) : Overlooks change (Execution.push value) :=
  fun _ => rfl

theorem pushNew (object : Object) :
    Overlooks change (Execution.pushNew object) :=
  .bind (alloc object) push

theorem pop : Overlooks change Execution.pop := by
  intro machine
  obtain ⟨source, stack, marks, memo, protocol, offset, history⟩ := machine
  cases stack <;> rfl

theorem peek : Overlooks change Execution.peek := by
  intro machine
  obtain ⟨source, stack, marks, memo, protocol, offset, history⟩ := machine
  cases stack <;> rfl

theorem popMany (count : Nat) :
    Overlooks change (Execution.popMany count) := by
  intro machine
  obtain ⟨source, stack, marks, memo, protocol, offset, history⟩ := machine
  by_cases short : stack.length < count
  · rw [popMany_of_lt short, popMany_of_lt (by exact short)]
    rfl
  · rw [popMany_of_le short, popMany_of_le (by exact short)]
    rfl

theorem replaceTop (value : Value) :
    Overlooks change (Execution.replaceTop value) :=
  .bind pop fun _ => push value

theorem mark : Overlooks change Execution.mark :=
  fun _ => rfl

theorem popMark : Overlooks change Execution.popMark := by
  intro machine
  obtain ⟨source, stack, marks, memo, protocol, offset, history⟩ := machine
  cases marks <;> rfl

theorem memoGet (keepsMemo : change.KeepsMemo) (slot : Int) :
    Overlooks change (Execution.memoGet slot) := by
  have same : ∀ machine : Machine,
      (machine.changed change).memo = machine.memo :=
    fun machine => keepsMemo machine.memo
  refine .get (fun machine => by rw [same]) fun machine => ?_
  dsimp only
  split
  · exact .pure _
  · split
    · exact .reject _
    · exact .throw _

theorem memoPut (keepsMemo : change.KeepsMemo) (slot : Nat) :
    Overlooks change (Execution.memoPut slot) := by
  refine .bind peek fun value => .modify fun machine => ?_
  have same : (machine.changed change).memo = machine.memo :=
    keepsMemo machine.memo
  have inserted := keepsMemo (Memo.insert slot value machine.memo)
  rw [same]
  exact congrArg (fun memo => { machine.changed change with memo })
    inserted.symm

/-! ## What instructions are composed of -/

theorem asking (change : Machine.Change) : Asking (Overlooks change) where
  pure := .pure
  throw := .throw
  bind := .bind
  heap := heap
  peek := peek

theorem composing (change : Machine.Change) (registry : Registry) :
    Composing registry (Overlooks change) (Overlooks change) where
  toAsking := asking change
  kept overlooks := overlooks
  follow := .bind
  proceed overlooks := .bind overlooks fun _ => .pure _
  push := push
  pop := pop
  popMany := popMany
  mark := mark
  popMark := popMark
  alloc _ := alloc _
  float _ := build _
  instantiate _ _ := build _
  setObject address _ _ := setObject address _

/-! ## States -/

theorem applyToTop : Overlooks change Execution.applyToTop := by
  refine .bind pop fun state => ?_
  refine .bind (asking change).peekObject fun target => ?_
  split
  · refine .bind (query _) fun record => ?_
    exact .bind (setObject _ _) fun _ => .pure _
  · exact (asking change).wrongTarget .build

theorem putArray {address : Address} {array : Value}
    (replaces : ∀ memo, change.memo (Memo.replace address array memo) =
      Memo.replace address array (change.memo memo)) :
    Overlooks change (Execution.putArray address array) := by
  refine .bind (replaceTop array) fun _ => .modify fun machine => ?_
  exact congrArg (fun memo => { machine.changed change with memo })
    (replaces machine.memo).symm

/-! ## The end -/

theorem finish : Overlooks change Execution.finish := by
  refine .get (fun _ => rfl) fun machine => ?_
  split
  · exact .reject _
  · split
    · exact .reject _
    · exact pop

end Overlooks

/-! ## Instructions -/

/-- Whether an instruction looks at the memo. -/
def asksMemo : Instruction → Bool
  | .get _ | .put _ | .memoize => true
  | _ => false

/-- An instruction overlooks a change of what it does not look at. Only frames
and payloads look at the reader. -/
theorem overlooks_execute {change : Machine.Change}
    (options : Options) (nested : Decoding Value) (instruction : Instruction)
    (noFrame : ∀ size, instruction ≠ .frame size)
    (noBuild : instruction ≠ .build)
    (keepsMemo : asksMemo instruction = true → change.KeepsMemo) :
    Overlooks change (execute options nested instruction) := by
  have proceed : ∀ {action : Execution Unit}, Overlooks change action →
      Overlooks change (execute.proceed action) :=
    fun overlooks => .bind overlooks fun _ => .pure _
  cases instruction with
  | frame size => exact absurd rfl (noFrame size)
  | build => exact absurd rfl noBuild
  | stop => exact .bind .finish fun value => .pure _
  | protocol version => exact proceed (.modify fun _ => rfl)
  | pushObject object => exact proceed (.pushNew object)
  | pop =>
      refine proceed (.get (fun _ => rfl) fun machine => ?_)
      split
      · exact .bind .popMark fun _ => .pure _
      · exact .bind .pop fun _ => .pure _
  | get slot => exact proceed (.bind (.memoGet (keepsMemo rfl) slot) .push)
  | put slot =>
      refine proceed ?_
      split
      · exact .reject _
      · exact .memoPut (keepsMemo rfl) _
  | memoize =>
      have same : ∀ machine : Machine,
          (machine.changed change).memo = machine.memo :=
        fun machine => keepsMemo rfl machine.memo
      refine proceed (.get (fun machine => by rw [same]) fun machine => ?_)
      exact .memoPut (keepsMemo rfl) _
  | _ => exact (Overlooks.composing change options.registry).execute trivial

/-! ## Stationary actions -/

/-- An action that does the same at every place and stays there. -/
def Stationary {α : Type} (action : Execution α) : Prop :=
  ∀ machine place : Machine,
    action (machine.standingAt place) =
      match action machine with
      | .ok result after => .ok result (after.standingAt place)
      | .error failure after => .error failure (after.standingAt place)

theorem Stationary.of_overlooks {α : Type} {action : Execution α}
    (overlooks : ∀ place, Overlooks (.place place) action) :
    Stationary action :=
  fun machine place => overlooks place machine

theorem Stationary.putArray (address : Address) (array : Value) :
    Stationary (Execution.putArray address array) :=
  .of_overlooks fun _ => .putArray fun _ => rfl

theorem Stationary.applyToTop : Stationary Execution.applyToTop :=
  .of_overlooks fun _ => .applyToTop

/-- Only frames and payloads move the reader. -/
theorem stationary_execute
    (options : Options) (nested : Decoding Value) (instruction : Instruction)
    (noFrame : ∀ size, instruction ≠ .frame size)
    (noBuild : instruction ≠ .build) :
    Stationary (execute options nested instruction) :=
  .of_overlooks fun _ => overlooks_execute options nested instruction noFrame
    noBuild fun _ _ => rfl

end Execution

/-! ## Two machines with one heap and one memo -/

namespace Machine

/-- Two machines with one heap and one memo. -/
structure Still (before after : Machine) : Prop where
  heap : after.source.heap = before.source.heap
  memo : after.memo = before.memo

instance : IsPreorder Machine Still where
  refl _ := ⟨rfl, rfl⟩
  trans _ _ _ first second :=
    ⟨second.heap.trans first.heap, second.memo.trans first.memo⟩

end Machine

namespace Execution

open Machine

variable {α β : Type}

/-! ## Actions that leave the heap and the memo alone -/

theorem still_modify {update : Machine → Machine}
    (same : ∀ machine, Still machine (update machine)) :
    Moves Still (modify update : Execution Unit) :=
  fun machine => same machine

theorem still_reject (cause : Cause) :
    Moves Still (reject cause : Execution α) :=
  .throw _

theorem still_heap : Moves Still heap :=
  fun _ => ⟨rfl, rfl⟩

theorem still_push (value : Value) : Moves Still (push value) :=
  fun _ => ⟨rfl, rfl⟩

theorem still_pop : Moves Still pop := by
  rintro ⟨source, stack, marks, memo, protocol, offset, history⟩
  cases stack <;> exact ⟨rfl, rfl⟩

theorem still_peek : Moves Still peek := by
  rintro ⟨source, stack, marks, memo, protocol, offset, history⟩
  cases stack <;> exact ⟨rfl, rfl⟩

theorem still_popMany (count : Nat) :
    Moves Still (popMany count) := by
  intro machine
  by_cases short : machine.stack.length < count
  · rw [popMany_of_lt short]
    exact ⟨rfl, rfl⟩
  · rw [popMany_of_le short]
    exact ⟨rfl, rfl⟩

theorem still_replaceTop (value : Value) :
    Moves Still (replaceTop value) :=
  .bind still_pop fun _ => still_push value

theorem still_popMark : Moves Still popMark := by
  rintro ⟨source, stack, marks, memo, protocol, offset, history⟩
  cases marks <;> exact ⟨rfl, rfl⟩

theorem still_memoGet (slot : Int) : Moves Still (memoGet slot) := by
  refine .bind (fun _ => ⟨rfl, rfl⟩) fun machine => ?_
  dsimp only
  split
  · exact .pure _
  · split
    · exact still_reject _
    · exact .throw _

theorem still_finish : Moves Still finish := by
  intro machine
  unfold finish
  rw [get_bind]
  split
  · exact ⟨rfl, rfl⟩
  · split
    · exact ⟨rfl, rfl⟩
    · exact still_pop machine

end Execution

end PickleGraph
