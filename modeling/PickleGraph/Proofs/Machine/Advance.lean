import PickleGraph.Machine.Run
import PickleGraph.Proofs.Decoding.Argument
import PickleGraph.Proofs.Decoding.Payload
import PickleGraph.Proofs.Machine.Stationary

/-!
# The machine reads on

Whatever an instruction does, its machine is left with no more to read than
before, and an opcode that is read is at least one byte less.
-/

namespace PickleGraph

open Actions

/-- A source whose reader has been read on. -/
def Source.ReadOn (before after : Source) : Prop :=
  before.reader.ReadOn after.reader

/-- A machine whose reader has been read on. -/
def Machine.ReadOn (before after : Machine) : Prop :=
  before.source.ReadOn after.source

instance : IsPreorder Source Source.ReadOn where
  refl source := Reader.Spent.refl source.reader
  trans _ _ _ first second := Reader.Spent.trans first second

instance : IsPreorder Machine Machine.ReadOn where
  refl machine := refl_of Source.ReadOn machine.source
  trans _ _ _ first second := trans_of Source.ReadOn first second

theorem Source.admits_readOn : Decoding.Admits Source.ReadOn where
  reading _ _ spent := spent
  growing source _ _ := Reader.Spent.refl source.reader
  apart source _ _ _ := Reader.Spent.refl source.reader

namespace Execution

variable {α : Type}

/-! ## Actions on the source -/

theorem decoding_eq_ok_iff
    {action : Decoding α} {machine after : Machine} {result : α} :
    decoding action machine = .ok result after ↔
      ∃ source, action machine.source = .ok result source ∧
        after = { machine with source } := by
  unfold decoding
  constructor
  · intro success
    split at success
    · next outcome =>
        cases success
        exact ⟨_, outcome, rfl⟩
    · cases success
  · rintro ⟨source, success, rfl⟩
    simp only [success]

/-! ## Parts of instructions -/

theorem readOn_decoding {action : Decoding α}
    (moves : Moves Source.ReadOn action) :
    Moves Machine.ReadOn (decoding action) := by
  intro machine
  have moved := moves machine.source
  unfold decoding
  split <;> next outcome =>
    rw [outcome] at moved
    exact moved

theorem Stationary.source_reader {action : Execution α}
    (stationary : Stationary action) (machine : Machine) :
    (finalState (action machine)).source.reader = machine.source.reader := by
  have same := stationary machine machine
  rw [Machine.standingAt_self] at same
  cases outcome : action machine with
  | ok result after =>
      rw [outcome] at same
      exact congrArg (finalState · |>.source.reader) same
  | error failure after =>
      rw [outcome] at same
      exact congrArg (finalState · |>.source.reader) same

theorem Stationary.readOn {action : Execution α}
    (stationary : Stationary action) :
    Moves Machine.ReadOn action := by
  intro machine
  have same := stationary.source_reader machine
  unfold Machine.ReadOn Source.ReadOn
  rw [same]
  exact .refl _

theorem readOn_openFrame (size : Nat) :
    Moves Source.ReadOn (Decoding.reading (Reader.openFrame size)) := by
  intro source
  have moved := Reader.openFrame_readOn size source.reader
  unfold Decoding.reading
  split <;> next outcome =>
    rw [outcome] at moved
    exact moved

/-! ## Instructions -/

variable {options : Options} {nested : Decoding Value}

theorem readOn_fillPlaceholder (nestedMoves : Moves Source.ReadOn nested)
    (address : Address) (record : Record) :
    Moves Machine.ReadOn (fillPlaceholder options nested address record) := by
  unfold fillPlaceholder
  split
  · next layout _ =>
    have parallel : Decoding.Parallel nested nested _ _ :=
      Payload.parallel_materialize options layout record
    exact .bind (readOn_decoding (parallel.moves Source.admits_readOn
      nestedMoves)) fun array => (Stationary.putArray address array).readOn
  · exact .pure _

theorem readOn_execute (nestedMoves : Moves Source.ReadOn nested)
    (instruction : Instruction) :
    Moves Machine.ReadOn (execute options nested instruction) := by
  by_cases isFrame : ∃ size, instruction = .frame size
  · obtain ⟨size, rfl⟩ := isFrame
    exact .bind (readOn_decoding (readOn_openFrame size)) fun _ => .pure _
  by_cases isBuild : instruction = .build
  · subst isBuild
    refine .bind ?_ fun _ => .pure _
    rw [giveState_eq]
    exact .bind Stationary.applyToTop.readOn fun _ =>
      readOn_fillPlaceholder nestedMoves _ _
  · exact (stationary_execute options nested instruction
      (fun size equality => isFrame ⟨size, equality⟩) isBuild).readOn

/-! ## Giving a state -/

theorem applyToTop_eq_ok {machine last : Machine} {target : Address × Record}
    (applied : applyToTop machine = .ok target last) :
    ∃ state rest record,
      machine.stack = state :: .object target.1 :: rest ∧
        machine.heap.get target.1 = .record record ∧
        record.applyState machine.heap state = .ok target.2 ∧
        last = { machine with
          source := { machine.source with
            heap := machine.heap.set target.1 (.record target.2) }
          stack := .object target.1 :: rest } := by
  obtain ⟨source, stack, marks, memo, protocol, offset, history⟩ := machine
  obtain ⟨state, popped, top, applied⟩ := bind_eq_ok_iff.mp applied
  obtain ⟨found, peeked, look, applied⟩ := bind_eq_ok_iff.mp applied
  cases stack with
  | nil => cases top
  | cons state rest =>
  cases top
  cases rest with
  | nil => cases look
  | cons below rest =>
  cases below with
  | object address =>
      have here : found = some (address, source.heap.get address) := by
        cases look
        rfl
      subst here
      cases look
      cases isRecord : source.heap.get address with
      | record record =>
          rw [isRecord] at applied
          obtain ⟨filled, middle, answered, applied⟩ :=
            bind_eq_ok_iff.mp applied
          obtain ⟨further, queried, rfl⟩ := decoding_eq_ok_iff.mp answered
          unfold Decoding.query at queried
          split at queried
          · next merged =>
              cases queried
              cases applied
              exact ⟨state, rest, record, rfl, isRecord, merged, rfl⟩
          · cases queried
      | _ =>
          rw [isRecord] at applied
          cases applied
  | _ =>
      cases look
      cases applied

/-! ## Opcodes -/

/-- A read of one byte that gives the code of an opcode has taken a byte. -/
theorem remaining_read_one {source after : Source} {data : Bytes}
    {opcode : Opcode}
    (success : Decoding.read 1 source = .ok data after)
    (known : Opcode.ofCode? (data.headD 0) = some opcode) :
    after.reader.remaining < source.reader.remaining := by
  have spent := Reader.read_spent 1 source.reader
  unfold Decoding.read Decoding.reading at success
  split at success
  · next outcome =>
      cases success
      rw [Int.natCast_one] at outcome
      rw [outcome] at spent
      have := spent.remaining
      cases data with
      | nil => cases known
      | cons byte rest =>
          rw [List.length_cons] at this
          exact Nat.lt_of_lt_of_le (Nat.lt_add_of_pos_right (by omega)) this
  · cases success

theorem readOn_readOpcode : Moves Machine.ReadOn readOpcode := by
  have read : Moves Source.ReadOn (Decoding.read 1) :=
    Decoding.moves_reading Source.admits_readOn fun reader =>
      reader.read_spent _
  refine .bind (fun machine => refl_of Machine.ReadOn machine)
    fun machine => ?_
  refine .bind (fun machine => refl_of Machine.ReadOn machine) fun _ => ?_
  refine .bind (readOn_decoding ?_) fun code => ?_
  · intro source
    have moved := read source
    unfold Decoding.mapFailure
    split <;> next outcome =>
      rw [outcome] at moved
      exact moved
  · dsimp only
    split
    · exact .pure _
    · exact .throw _

/-- What it takes to read an opcode, and what it changes. -/
theorem readOpcode_eq_ok_iff
    {machine after : Machine} {opcode : Opcode} :
    readOpcode machine = .ok opcode after ↔
      ∃ data source, Decoding.read 1 machine.source = .ok data source ∧
        Opcode.ofCode? (data.headD 0) = some opcode ∧
        after = { machine with
          source
          offset := machine.source.reader.tell?.getD 0 } := by
  have unfolded : readOpcode machine =
      (decoding (Decoding.mapFailure
          (missingOpcode (machine.source.reader.tell?.getD 0))
          (Decoding.read 1)) >>= _)
        { machine with
          offset := machine.source.reader.tell?.getD 0 } :=
    rfl
  rw [unfolded, bind_eq_ok_iff]
  constructor
  · rintro ⟨data, middle, fetched, known⟩
    obtain ⟨source, mapped, rfl⟩ := decoding_eq_ok_iff.mp fetched
    have read := Decoding.mapFailure_eq_ok_iff.mp mapped
    cases found : Opcode.ofCode? (data.headD 0) with
    | none =>
        rw [found] at known
        cases known
    | some other =>
        rw [found] at known
        cases known
        exact ⟨data, source, read, found, rfl⟩
  · rintro ⟨data, source, read, known, rfl⟩
    refine ⟨data, _, decoding_eq_ok_iff.mpr ⟨source, ?_, rfl⟩, ?_⟩
    · exact Decoding.mapFailure_eq_ok_iff.mpr read
    · rw [known]
      rfl

theorem remaining_readOpcode {machine after : Machine} {opcode : Opcode}
    (success : readOpcode machine = .ok opcode after) :
    after.source.reader.remaining < machine.source.reader.remaining := by
  obtain ⟨data, source, read, known, rfl⟩ := readOpcode_eq_ok_iff.mp success
  exact remaining_read_one read known

/-! ## Steps -/

/-- What a step does with the opcode it has read. -/
def perform (options : Options) (nested : Decoding Value) (opcode : Opcode) :
    Execution (Option Value) := do
  let instruction ← decoding (Instruction.ofOpcode options.rules opcode)
  let result ← execute options nested instruction
  if result.isNone then
    modify (·.record opcode)
  return result

theorem step_eq (options : Options) (nested : Decoding Value) :
    step options nested = readOpcode >>= perform options nested :=
  rfl

/-- The machine after an instruction, as it is left to be seen. -/
def recorded (opcode : Opcode) (result : Option Value) (last : Machine) :
    Machine :=
  if result.isNone then last.record opcode else last

@[simp] theorem recorded_stack (opcode : Opcode) (result : Option Value)
    (last : Machine) : (recorded opcode result last).stack = last.stack := by
  cases result <;> rfl

@[simp] theorem recorded_memo (opcode : Opcode) (result : Option Value)
    (last : Machine) : (recorded opcode result last).memo = last.memo := by
  cases result <;> rfl

/-- What an opcode takes, does and leaves to be seen. -/
theorem perform_eq_ok_iff {before after : Machine} {opcode : Opcode}
    {result : Option Value} :
    perform options nested opcode before = .ok result after ↔
      ∃ instruction middle last,
        decoding (Instruction.ofOpcode options.rules opcode) before =
            .ok instruction middle ∧
          execute options nested instruction middle = .ok result last ∧
          after = recorded opcode result last := by
  constructor
  · intro success
    obtain ⟨instruction, middle, argued, rest⟩ := bind_eq_ok_iff.mp success
    obtain ⟨value, last, executed, rest⟩ := bind_eq_ok_iff.mp rest
    cases value with
    | none =>
        cases rest
        exact ⟨instruction, middle, _, argued, executed, rfl⟩
    | some value =>
        cases rest
        exact ⟨instruction, middle, _, argued, executed, rfl⟩
  · rintro ⟨instruction, middle, last, argued, executed, rfl⟩
    refine (bind_of_eq_ok argued).trans ((bind_of_eq_ok executed).trans ?_)
    cases result <;> rfl

theorem readOn_perform (nestedMoves : Moves Source.ReadOn nested)
    (opcode : Opcode) :
    Moves Machine.ReadOn (perform options nested opcode) := by
  have parallel : Decoding.Parallel nested nested _ _ :=
    Instruction.parallel_ofOpcode options.rules opcode
  refine .bind (readOn_decoding (parallel.moves Source.admits_readOn
    nestedMoves)) fun instruction => ?_
  refine .bind (readOn_execute nestedMoves instruction) fun result => ?_
  dsimp only
  split
  · exact .bind (fun machine => refl_of Machine.ReadOn machine)
      fun _ => .pure _
  · exact .pure _

theorem readOn_step (nestedMoves : Moves Source.ReadOn nested) :
    Moves Machine.ReadOn (step options nested) :=
  .bind readOn_readOpcode fun opcode => readOn_perform nestedMoves opcode

end Execution

end PickleGraph
