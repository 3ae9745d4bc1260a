import PickleGraph.Proofs.Machine.Steps
import PickleGraph.Proofs.Registry.Governed

/-!
# Governed machines

Every instruction leaves the heap of its machine under the registry, whether it
succeeds or fails, and so do the pickles inside.

Whatever is decoded, every reference to a type and every record carries the
strategy that the registry binds to its name, and no record carries a
constructor. This holds in every state that a machine gets to: between two
opcodes, after a failure, in later pickles of the same input, and in the
machines that decode the pickles inside.
-/

namespace PickleGraph

open Actions

namespace Execution

open Machine

variable {α β : Type}

/-! ## Actions that keep a heap governed -/

/-- The action ends in a governed heap if it starts in one. -/
def Obeys (registry : Registry) (action : Execution α) : Prop :=
  Moves (Keeps fun machine : Machine =>
    machine.source.heap.IsGoverned registry) action

theorem admits_governed (registry : Registry) :
    Decoding.Admits
      (Keeps fun source : Source => source.heap.IsGoverned registry) where
  reading _ _ _ governed := governed
  growing _ _ growth governed :=
    governed.grows (growth.mono fun _ isData => isData.isBound)
  apart _ _ _ kept governed := kept governed

variable {registry : Registry}

namespace Obeys

theorem pure (result : α) :
    Obeys registry (Pure.pure result : Execution α) :=
  Moves.pure result

theorem throw (failure : Failure) :
    Obeys registry (MonadExcept.throw failure : Execution α) :=
  Moves.throw failure

theorem bind {action : Execution α} {next : α → Execution β}
    (first : Obeys registry action)
    (second : ∀ value, Obeys registry (next value)) :
    Obeys registry (action >>= next) :=
  Moves.bind first second

theorem decoding {action : Decoding α}
    (keeps : Moves
      (Keeps fun source : Source => source.heap.IsGoverned registry) action) :
    Obeys registry (Execution.decoding action) :=
  keeps_decoding keeps

theorem of_still {action : Execution α} (moves : Moves Still action) :
    Obeys registry action := by
  intro machine governed
  have same := (moves machine).heap
  rw [same]
  exact governed

/-- A change of anything but the heap. -/
theorem change {update : Machine → Machine}
    (same : ∀ machine : Machine,
      (update machine).source.heap = machine.source.heap) :
    Obeys registry (modify update : Execution Unit) := by
  intro machine governed
  show Heap.IsGoverned registry (update machine).source.heap
  rw [same]
  exact governed

theorem memoPut (slot : Nat) : Obeys registry (Execution.memoPut slot) :=
  bind (of_still still_peek) fun _ => change fun _ => rfl

theorem build {change : Heap → Except Failure (α × Heap)}
    (grows : ∀ heap : Heap, heap.IsGoverned registry →
      heap.GrowsTo (Object.IsBound registry) (change heap)) :
    Obeys registry (Execution.decoding (Decoding.build change)) := by
  intro machine governed
  have grows := grows machine.source.heap governed
  cases outcome : change machine.source.heap with
  | ok result =>
      simp only [Execution.decoding, Decoding.build, outcome]
      exact governed.grows (grows _ _ outcome)
  | error failure =>
      simp only [Execution.decoding, Decoding.build, outcome]
      exact governed

theorem openFrame (size : Nat) :
    Obeys registry
      (Execution.decoding (Decoding.reading (Reader.openFrame size))) := by
  refine decoding fun source governed => ?_
  cases outcome : Reader.openFrame size source.reader with
  | ok result reader =>
      simp only [Decoding.reading, outcome]
      exact governed
  | error failure reader =>
      simp only [Decoding.reading, outcome]
      exact governed

theorem alloc {object : Object} (isBound : object.IsBound registry) :
    Obeys registry (Execution.decoding (Decoding.alloc object)) := by
  rw [Decoding.alloc_eq_build]
  exact build fun heap _ => .ok (.alloc heap isBound)

theorem setObject (address : Address) {object : Object}
    (isBound : object.IsBound registry) :
    Obeys registry (Execution.setObject address object) :=
  fun _ governed => governed.set address isBound

/-! ## What instructions are composed of -/

theorem asking (registry : Registry) : Asking (Obeys registry) where
  pure := .pure
  throw := .throw
  bind := .bind
  heap := of_still still_heap
  peek := of_still still_peek

theorem composing (registry : Registry) :
    Composing registry (Obeys registry) (Obeys registry) where
  toAsking := asking registry
  kept obeys := obeys
  follow := .bind
  proceed obeys := .bind obeys fun _ => .pure _
  push value := of_still (still_push value)
  pop := of_still still_pop
  popMany count := of_still (still_popMany count)
  mark := of_still (still_modify fun _ => ⟨rfl, rfl⟩)
  popMark := of_still still_popMark
  alloc := alloc
  float number := build fun heap _ => .ok (.float heap number)
  instantiate type call := build fun _ governed =>
    Heap.growsTo_instantiate governed type call
  setObject := setObject

/-! ## States -/

theorem get_of_peekObject {machine after : Machine} {address : Address}
    {object : Object}
    (success : peekObject? machine = .ok (some (address, object)) after) :
    after.source.heap.get address = object := by
  obtain ⟨source, stack, marks, memo, protocol, offset, history⟩ := machine
  cases stack with
  | nil => cases success
  | cons top rest =>
      cases top <;> cases success
      rfl

/-- The record that gets a state is one of the heap, and only its fields
change. -/
theorem applyToTop : Obeys registry Execution.applyToTop := by
  refine .bind (of_still still_pop) fun state => ?_
  refine Moves.bind_of_ok (asking registry).peekObject
    fun target before middle peeked => ?_
  split
  · next address record =>
      intro governed
      have isBound := governed.record (get_of_peekObject peeked)
      cases applied : record.applyState middle.source.heap state with
      | ok after =>
          have queried : Execution.decoding (Decoding.query fun heap =>
              record.applyState heap state) middle = .ok after middle := by
            simp only [Execution.decoding, Decoding.query, applied]
          rw [bind_of_eq_ok queried]
          exact governed.set address
            (isBound.refill (Record.refills_applyState applied))
      | error failure =>
          have queried : Execution.decoding (Decoding.query fun heap =>
              record.applyState heap state) middle =
                .error failure middle := by
            simp only [Execution.decoding, Decoding.query, applied]
          rw [bind_of_eq_error queried]
          exact governed
  · exact (asking registry).wrongTarget .build middle

theorem fillPlaceholder {options : Options} {nested : Decoding Value}
    (nestedKeeps : Moves
      (Keeps fun source : Source => source.heap.IsGoverned registry) nested)
    (address : Address) (record : Record) :
    Obeys registry
      (Execution.fillPlaceholder options nested address record) := by
  unfold Execution.fillPlaceholder
  split
  · next layout _ =>
    have parallel : Decoding.Parallel nested nested _ _ :=
      Payload.parallel_materialize options layout record
    refine .bind (decoding (parallel.moves (admits_governed registry)
      nestedKeeps)) fun array => ?_
    refine .bind (of_still (still_replaceTop array)) fun _ => ?_
    exact change fun _ => rfl
  · exact .pure _

end Obeys

/-! ## Instructions -/

theorem obeys_readOpcode : Obeys registry readOpcode := by
  have still : ∀ update : Machine → Machine,
      (∀ machine, Still machine (update machine)) →
        Obeys registry (modify update) :=
    fun _ same => .of_still (still_modify same)
  have parallel : ∀ change : Failure → Failure,
      Decoding.Parallel (pure .none) (pure .none)
        (Decoding.mapFailure change (Decoding.read 1)) _ :=
    fun change => .mapFailure change change (.read 1)
  refine .bind (.of_still fun _ => ⟨rfl, rfl⟩) fun machine => ?_
  refine .bind (still _ fun _ => ⟨rfl, rfl⟩) fun _ => ?_
  refine .bind (.decoding ((parallel _).moves (admits_governed registry)
    (.pure _))) fun code => ?_
  dsimp only
  split
  · exact .pure _
  · exact .throw _

section Steps

variable {options : Options} {nested : Decoding Value}
variable (nestedKeeps : Moves (Keeps fun source : Source =>
  source.heap.IsGoverned options.registry) nested)

include nestedKeeps

theorem obeys_execute {opcode : Opcode} {instruction : Instruction}
    (suits : instruction.Suits opcode) :
    Obeys options.registry (execute options nested instruction) := by
  have proceed : ∀ {action : Execution Unit},
      Obeys options.registry action →
        Obeys options.registry (execute.proceed action) :=
    fun obeys => .bind obeys fun _ => .pure _
  have still : ∀ {action : Execution Unit}, Moves Still action →
      Obeys options.registry (execute.proceed action) :=
    fun moves => proceed (.of_still moves)
  have composing := Obeys.composing options.registry
  cases instruction with
  | stop => exact .of_still (.bind still_finish fun _ => .pure _)
  | protocol version => exact still (still_modify fun _ => ⟨rfl, rfl⟩)
  | frame size => exact proceed (.openFrame size)
  | pushObject object =>
      exact proceed (composing.pushNew (Object.IsData.isBound suits))
  | pop =>
      refine still (.bind (fun _ => ⟨rfl, rfl⟩) fun machine => ?_)
      split
      · exact .bind still_popMark fun _ => .pure _
      · exact .bind still_pop fun _ => .pure _
  | get slot => exact still (.bind (still_memoGet slot) still_push)
  | put slot =>
      refine proceed ?_
      split
      · exact .of_still (still_reject _)
      · exact .memoPut _
  | memoize =>
      exact proceed (.bind (.of_still fun _ => ⟨rfl, rfl⟩) fun machine =>
        .memoPut _)
  | build =>
      refine proceed ?_
      rw [giveState_eq]
      exact .bind .applyToTop fun target => .fillPlaceholder nestedKeeps _ _
  | _ => exact composing.execute trivial

theorem obeys_perform (opcode : Opcode) :
    Obeys options.registry (perform options nested opcode) := by
  have parallel : Decoding.Parallel nested nested _ _ :=
    Instruction.parallel_ofOpcode options.rules opcode
  refine Moves.bind_of_ok (Obeys.decoding (parallel.moves
    (admits_governed options.registry) nestedKeeps))
    fun instruction before middle outcome => ?_
  obtain ⟨source, parsed, _⟩ := decoding_eq_ok_iff.mp outcome
  have suits := Instruction.suits_ofOpcode options.rules opcode
    before.source instruction source parsed
  have recorded : Moves Still
      (modify (·.record opcode) : Execution Unit) :=
    still_modify fun _ => ⟨rfl, rfl⟩
  refine Moves.bind (obeys_execute nestedKeeps suits) (fun result => ?_)
    middle
  dsimp only
  split
  · exact .bind (Obeys.of_still recorded) fun _ => .pure _
  · exact .pure _

theorem obeys_step : Obeys options.registry (step options nested) :=
  .bind obeys_readOpcode (obeys_perform nestedKeeps)

end Steps

/-! ## Runs -/

theorem keeps_inside {action : Execution Value}
    (obeys : Obeys registry action) :
    Moves (Keeps fun source : Source => source.heap.IsGoverned registry)
      (inside action) := by
  intro source governed
  have kept := obeys (Machine.ofReader source.reader source.heap false)
    governed
  unfold inside
  split <;> next outcome =>
    rw [outcome] at kept
    exact kept

theorem obeys_placed {action : Execution α}
    (obeys : Obeys registry action) : Obeys registry (placed action) := by
  intro machine governed
  have kept := obeys machine governed
  unfold placed
  split <;> next outcome =>
    rw [outcome] at kept
    exact kept

theorem obeys_run (steps : Nat) (options : Options) :
    Obeys options.registry (run steps options) := by
  induction steps generalizing options with
  | zero => exact obeys_placed (.throw _)
  | succ steps inductionHypothesis =>
      rw [run_succ]
      have nestedKeeps := keeps_inside
        (inductionHypothesis (nestedOptions options))
      refine .bind (obeys_placed (obeys_step nestedKeeps)) fun result => ?_
      cases result with
      | some value => exact .pure value
      | none => exact inductionHypothesis options

theorem obeys_runToEnd (options : Options) :
    Obeys options.registry (runToEnd options) :=
  fun machine => obeys_run (machine.size + 1) options machine

theorem keeps_nestedPickle (options : Options) :
    Moves
      (Keeps fun source : Source => source.heap.IsGoverned options.registry)
      (nestedPickle options) :=
  keeps_inside (obeys_runToEnd (nestedOptions options))

end Execution

/-! ## Machines that are reached -/

namespace Execution

/-- A step of the machine asks for a pickle inside at the source: it would end
otherwise if this pickle did. -/
def Consults (options : Options) (machine : Machine) (source : Source) :
    Prop :=
  ∃ other : Decoding Value,
    (∀ place, place ≠ source → other place = nestedPickle options place) ∧
      step options other machine ≠
        step options (nestedPickle options) machine

/-- The machines that decoding gets to, with the options they run under. -/
inductive Reached : Options → Machine → Prop
  | start (options : Options) (reader : Reader) (isRecorded : Bool) :
      Reached options (Machine.ofReader reader .empty isRecorded)
  | restart {options : Options} {machine : Machine} :
      Reached options machine → Reached options machine.restart
  | step {options : Options} {machine : Machine} :
      Reached options machine →
      Reached options
        (finalState
          (placed (Execution.step options (nestedPickle options)) machine))
  | nested {options : Options} {machine : Machine} {source : Source} :
      Reached options machine → Consults options machine source →
      Reached (nestedOptions options)
        (Machine.ofReader source.reader source.heap false)

/-! ## Runs stay within the reached machines -/

theorem Reached.run {options : Options} {machine : Machine}
    (reached : Reached options machine) :
    Reached options (finalState (runToEnd options machine)) := by
  induction size : machine.size using Nat.strongRecOn
    generalizing machine with
  | ind size inductionHypothesis =>
      have stepped := reached.step
      rw [runToEnd_eq]
      cases outcome :
          placed (Execution.step options (nestedPickle options)) machine with
      | error failure after =>
          rw [outcome] at stepped
          rw [bind_of_eq_error outcome]
          exact stepped
      | ok result after =>
          rw [outcome] at stepped
          rw [bind_of_eq_ok outcome]
          cases result with
          | some value => exact stepped
          | none =>
              have smaller := size_step (readOn_nestedPickle options)
                (placed_eq_ok_iff.mp outcome)
              exact inductionHypothesis after.size (size ▸ smaller) stepped
                rfl

/-- A machine that has decoded a pickle, or has failed to, has been reached. -/
theorem Reached.load {options : Options} {machine : Machine}
    (reached : Reached options machine) :
    Reached options (finalState (Machine.load options machine)) :=
  reached.restart.run

/-! ## The invariant -/

/-- A pickle inside starts where a state has been given to a placeholder. -/
theorem Consults.exists_build {options : Options} {machine : Machine}
    {source : Source} (consults : Consults options machine source) :
    ∃ middle target last, readOpcode machine = .ok .build middle ∧
      applyToTop middle = .ok target last ∧ last.source = source := by
  obtain ⟨other, elsewhere, differ⟩ := consults
  refine Classical.byContradiction fun nowhere => differ ?_
  refine step_congr fun middle target last read applied => ?_
  refine elsewhere _ fun same => nowhere ?_
  exact ⟨middle, target, last, read, applied, same⟩

theorem Consults.isGoverned {options : Options} {machine : Machine}
    {source : Source} (consults : Consults options machine source)
    (governed : machine.source.heap.IsGoverned options.registry) :
    source.heap.IsGoverned options.registry := by
  obtain ⟨middle, target, last, read, applied, rfl⟩ := consults.exists_build
  have reading := obeys_readOpcode machine governed
  rw [read] at reading
  have applying := Obeys.applyToTop middle reading
  rw [applied] at applying
  exact applying

theorem Reached.isGoverned {options : Options} {machine : Machine}
    (reached : Reached options machine) :
    machine.source.heap.IsGoverned options.registry := by
  induction reached with
  | start => exact .empty
  | restart _ governed => exact governed
  | step _ governed =>
      exact obeys_placed (obeys_step (keeps_nestedPickle _)) _ governed
  | nested _ consults governed => exact consults.isGoverned governed

/-! ## The closed world -/

/-- Every reference to a type and every record is bound in the registry and
carries the strategy that is bound, a record has the target of its strategy, and
this is never a constructor. An object that a value leads to is an object of the
heap. -/
def IsClosedWorld (registry : Registry) (heap : Heap) : Prop :=
  (∀ address reference, heap.get address = .typeRef reference →
      registry.resolve ⟨reference.module, reference.name⟩ =
        .ok reference.strategy) ∧
    ∀ address record, heap.get address = .record record →
      registry.resolve ⟨record.module, record.name⟩ = .ok record.strategy ∧
        record.target = record.strategy.target ∧
        ∀ target function, record.strategy ≠ .callable target function

theorem isClosedWorld_of_isGoverned {registry : Registry} {heap : Heap}
    (governed : heap.IsGoverned registry) :
    IsClosedWorld registry heap := by
  refine ⟨fun _ _ here => governed.typeRef here, fun _ _ here => ?_⟩
  have isBound := governed.record here
  exact ⟨isBound.strategy, isBound.target, isBound.strategy_ne_callable⟩

/-- Decoding stays in the closed world of its registry, in every machine that is
reached and with every value that is returned. -/
theorem Reached.isClosedWorld {options : Options} {machine : Machine}
    (reached : Reached options machine) :
    IsClosedWorld options.registry machine.heap ∧
      ∀ value after, Machine.load options machine = .ok value after →
        IsClosedWorld options.registry after.heap := by
  refine ⟨isClosedWorld_of_isGoverned reached.isGoverned, ?_⟩
  intro value after loaded
  have finished := reached.load
  rw [loaded] at finished
  exact isClosedWorld_of_isGoverned finished.isGoverned

/-- A registry of one type, `m.n`. -/
def oneType : Options where
  registry := ⟨[(⟨[0x6D], [0x6E]⟩, ⟨.generic [0x74] .plain, 0⟩)]⟩

/-- A machine before a pickle of an instance of this type. -/
def oneInstance : Machine :=
  Machine.ofReader
    (.ofBytes [0x63, 0x6D, 0x0A, 0x6E, 0x0A, 0x29, 0x81, 0x2E]) .empty false

/-- The instance is a record, and its world is closed. -/
theorem isClosedWorld_oneInstance :
    (match Machine.load oneType oneInstance with
      | .ok value after => (after.heap.record? value).isSome
      | .error _ _ => false) = true ∧
      IsClosedWorld oneType.registry oneInstance.heap ∧
        ∀ value after,
          Machine.load oneType oneInstance = .ok value after →
            IsClosedWorld oneType.registry after.heap := by
  have reached : Reached oneType oneInstance := .start _ _ _
  exact ⟨by decide +kernel, reached.isClosedWorld⟩

end Execution

end PickleGraph
