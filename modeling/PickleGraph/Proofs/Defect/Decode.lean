import PickleGraph.Proofs.Defect.Machine
import PickleGraph.Proofs.Machine.Governed
import PickleGraph.Proofs.Machine.Depth

/-!
# What is wrong with a stream is reported with its place

Under strict rules for texts and a registry of types that are made into records,
decoding a byte string gives a value or a defect with a place in the byte string.
There are two exceptions. The number of a slot of the memo has no bound, and where
it is too long for a message the report itself is refused. And keys may be nested
too deep to be compared.
-/

namespace PickleGraph

open Actions

namespace Execution

variable {options : Options} {nested : Decoding Value}
variable {length : Nat} {registry : Registry}

/-! ## Steps -/

theorem isWithin_missingOpcode {offset : Nat} (within : offset ≤ length)
    {failure : Failure} (isWithin : failure.IsWithin length) :
    (missingOpcode offset failure).IsWithin length := by
  cases failure with
  | defect cause place =>
      unfold missingOpcode
      dsimp only
      split
      · exact Failure.isWithin_of_le within
      · exact isWithin
  | refused refusal => exact isWithin
  | source fault => exact isWithin

theorem meets_readOpcode :
    Meets (fun machine : Machine => machine.source.IsOn length registry)
      readOpcode
      (fun _ machine => machine.IsOn length registry)
      (fun failure machine =>
        failure.IsWithin length ∧ machine.offset ≤ length) := by
  intro machine here
  obtain ⟨offset, told, within⟩ := here.reader.tell_le
  have fetches : Meets (Machine.IsOn length registry)
      (decoding (Decoding.mapFailure (missingOpcode offset)
        (Decoding.read 1)))
      (fun _ => Machine.IsOn length registry)
      (fun failure machine =>
        failure.IsWithin length ∧ machine.offset ≤ length) := by
    intro machine here
    have small : 1 ≤ Instruction.maxSize := by decide
    have read := here.source.reader.read small
    unfold decoding Decoding.mapFailure Decoding.read Decoding.reading
    cases outcome : machine.source.reader.read (1 : Nat) with
    | ok data reader =>
        rw [outcome] at read
        exact ⟨⟨read.2, here.source.heap⟩, here.offset⟩
    | error failure reader =>
        rw [outcome] at read
        exact ⟨isWithin_missingOpcode within read, here.offset⟩
  have place : machine.source.reader.tell?.getD 0 = offset := by
    rw [told]
    rfl
  have unfolded : readOpcode machine =
      (decoding (Decoding.mapFailure
          (missingOpcode (machine.source.reader.tell?.getD 0))
          (Decoding.read 1)) >>= _)
        { machine with
          offset := machine.source.reader.tell?.getD 0 } :=
    rfl
  rw [unfolded, place]
  refine Meets.bind fetches (fun code => ?_) _ ⟨here, within⟩
  dsimp only
  split
  · exact Meets.pure fun _ here => here
  · exact Meets.throw fun _ here =>
      ⟨Failure.isWithin_of_le within, here.offset⟩

/-- The slot is missing, and its number is too long to be shown. -/
def IsBeyond (memo : List (Nat × Value)) (slot : Int) : Prop :=
  10 ^ Integer.maxDecimalDigits ≤ slot.natAbs ∧
    (slot < 0 ∨ memo.lookup slot.toNat = none)

/-- Only a missing slot cannot be had. -/
theorem missing_of_memoGet {slot : Int} {machine after : Machine}
    {failure : Failure} (failed : memoGet slot machine = .error failure after) :
    slot < 0 ∨ machine.memo.lookup slot.toNat = none := by
  unfold memoGet at failed
  rw [Actions.get_bind] at failed
  by_cases negative : slot < 0
  · exact .inl negative
  · rw [if_neg negative] at failed
    cases found : machine.memo.lookup slot.toNat with
    | none => exact .inr rfl
    | some value =>
        rw [found] at failed
        cases failed

theorem missing_of_execute {slot : Int} {machine after : Machine}
    {failure : Failure}
    (failed : execute options nested (.get slot) machine =
      .error failure after) :
    slot < 0 ∨ machine.memo.lookup slot.toNat = none := by
  cases found : memoGet slot machine with
  | error other last => exact missing_of_memoGet found
  | ok value last =>
      have executed : execute options nested (.get slot) machine =
          .ok none { last with stack := value :: last.stack } := by
        have pushed : (memoGet slot >>= push) machine =
            .ok () { last with stack := value :: last.stack } :=
          bind_of_eq_ok found
        exact bind_of_eq_ok pushed
      rw [executed] at failed
      cases failed

/-- What makes an opcode fail without a defect: a missing slot beyond showing, or
a key on the stack that is too deep. -/
inductive Overtaxes (options : Options) (opcode : Opcode) (middle : Machine) :
    Refusal → Prop
  | slot {slot : Int} {source : Source} :
      Instruction.ofOpcode options.rules opcode middle.source =
        .ok (.get slot) source →
      IsBeyond middle.memo slot → Overtaxes options opcode middle .badValue
  | key {instruction : Instruction} {source : Source} :
      Instruction.ofOpcode options.rules opcode middle.source =
        .ok instruction source →
      AddsDeep instruction middle.stack →
      Overtaxes options opcode middle .recursion

/-- What an opcode leaves behind: a machine in the middle of the byte string, or
a defect, unless it is overtaxed. -/
theorem perform_ends (nested : Decoding Value)
    (makesRecords : options.registry.MakesRecords)
    (isStrict : options.rules.IsStrict) (opcode : Opcode)
    {middle : Machine} (isOn : middle.IsOn length options.registry) :
    EndsIn (fun _ after => after.IsOn length options.registry)
      (fun failure after =>
        (failure.IsWithin length ∨ ∃ refusal,
          failure = .refused refusal ∧
            Overtaxes options opcode middle refusal) ∧
        after.offset ≤ length)
      (perform options nested opcode middle) := by
  have argues := (Instruction.argues_isWithin isStrict opcode).ofOpcode
    middle.source isOn.source
  have modest := Instruction.isModest_ofOpcode options.rules opcode
    middle.source
  cases argued : Instruction.ofOpcode options.rules opcode
      middle.source with
  | error failure source =>
      rw [argued] at argues
      have parsed : decoding (Instruction.ofOpcode options.rules opcode)
          middle = .error failure { middle with source } := by
        unfold decoding
        rw [argued]
      rw [perform, bind_of_eq_error parsed]
      exact ⟨.inl argues, isOn.offset⟩
  | ok instruction source =>
      rw [argued] at argues
      have parsed : decoding (Instruction.ofOpcode options.rules opcode)
          middle = .ok instruction { middle with source } :=
        decoding_eq_ok_iff.mpr ⟨source, argued, rfl⟩
      have ready : Machine.IsOn length options.registry
          { middle with source } :=
        ⟨argues, isOn.offset⟩
      have executed := staysIn_execute nested makesRecords (modest _ _ argued)
        _ ready
      rw [perform, bind_of_eq_ok parsed]
      cases outcome : execute options nested instruction
          { middle with source } with
      | error failure after =>
          rw [outcome] at executed
          rw [bind_of_eq_error outcome]
          obtain ⟨isWithin | ⟨rfl, slot, rfl, large⟩ | ⟨rfl, deep⟩,
            offset⟩ := executed
          · exact ⟨.inl isWithin, offset⟩
          · have missing := missing_of_execute outcome
            exact ⟨.inr ⟨_, rfl, .slot argued ⟨large, missing⟩⟩, offset⟩
          · exact ⟨.inr ⟨_, rfl, .key argued deep⟩, offset⟩
      | ok result after =>
          rw [outcome] at executed
          rw [bind_of_eq_ok outcome]
          have recorded : Machine.IsOn length options.registry
              (after.record opcode) :=
            ⟨executed.source, executed.offset⟩
          cases result with
          | none => exact recorded
          | some value => exact executed

/-! ## Runs -/

/-- A defect with a place within an input of the length. -/
def IsReport (length : Nat) (failure : Failure) : Prop :=
  ∃ cause offset, failure = .defect cause (some offset) ∧ offset ≤ length

/-- The machine gets to an opcode that overtaxes it, either with a missing slot
whose number is too long to be shown or with a key that is nested too deep to be
compared. -/
def GetsBeyond (options : Options) (machine : Machine) (refusal : Refusal) :
    Prop :=
  ∃ opcodes last opcode middle,
    Completes options machine opcodes last ∧
    readOpcode last = .ok opcode middle ∧
    Overtaxes options opcode middle refusal

theorem GetsBeyond.cons {machine middle after : Machine} {opcode : Opcode}
    {refusal : Refusal} (read : readOpcode machine = .ok opcode middle)
    (performed : perform options (nestedPickle options) opcode middle =
      .ok none after)
    (later : GetsBeyond options after refusal) :
    GetsBeyond options machine refusal := by
  obtain ⟨opcodes, last, asking, place, completes, ends⟩ := later
  exact ⟨opcode :: opcodes, last, asking, place,
    .cons read performed completes, ends⟩

/-- A failure that is a defect is placed at the opcode unless it has a place. -/
theorem isReport_placed {α : Type} {action : Execution α}
    {machine after : Machine} {failure : Failure}
    (failed : action machine = .error failure after)
    (isWithin : failure.IsWithin length) (offset : after.offset ≤ length) :
    EndsIn (fun _ _ => False) (fun failure _ => IsReport length failure)
      (placed action machine) := by
  unfold placed
  rw [failed]
  cases failure with
  | defect cause place =>
      cases place with
      | none => exact ⟨cause, after.offset, rfl, offset⟩
      | some place => exact ⟨cause, place, rfl, isWithin place rfl⟩
  | refused refusal => exact absurd isWithin id
  | source fault => exact absurd isWithin id

/-- A run that fails reports a defect, unless it gets to an opcode that overtaxes
it. -/
theorem report_of_runToEnd (makesRecords : options.registry.MakesRecords)
    (isStrict : options.rules.IsStrict) {machine after : Machine}
    (isOn : machine.source.IsOn length options.registry)
    {failure : Failure}
    (failed : runToEnd options machine = .error failure after) :
    IsReport length failure ∨ ∃ refusal,
      failure = .refused refusal ∧ GetsBeyond options machine refusal := by
  induction measured : machine.size using Nat.strongRecOn
    generalizing machine with
  | ind size inductionHypothesis =>
      have read := meets_readOpcode machine isOn
      cases fetched : readOpcode machine with
      | error reason middle =>
          rw [fetched] at read
          have stepped : step options (nestedPickle options) machine =
              .error reason middle := by
            rw [step_eq, bind_of_eq_error fetched]
          have report := isReport_placed stepped read.1 read.2
          rw [runToEnd_eq] at failed
          cases ended :
              placed (step options (nestedPickle options)) machine with
          | ok result next =>
              rw [ended] at report
              exact absurd report id
          | error other next =>
              rw [ended] at report
              rw [bind_of_eq_error ended] at failed
              cases failed
              exact .inl report
      | ok opcode middle =>
          rw [fetched] at read
          have ends := perform_ends (nestedPickle options) makesRecords
            isStrict opcode read
          cases performed :
              perform options (nestedPickle options) opcode middle with
          | error reason next =>
              rw [performed] at ends
              rw [runToEnd_of_error fetched performed] at failed
              obtain ⟨isWithin | ⟨refusal, rfl, overtaxes⟩, offset⟩ := ends
              · have thrown : (throw reason : Execution Value) next =
                    .error reason next := rfl
                have report := isReport_placed thrown isWithin offset
                rw [failed] at report
                exact .inl report
              · cases failed
                exact .inr ⟨refusal, rfl, [], machine, opcode, middle,
                  .nil _, fetched, overtaxes⟩
          | ok result next =>
              rw [performed] at ends
              have stepped : step options (nestedPickle options) machine =
                  .ok result next := by
                rw [step_eq, bind_of_eq_ok fetched]
                exact performed
              cases result with
              | some value =>
                  rw [runToEnd_of_finish stepped] at failed
                  cases failed
              | none =>
                  rw [runToEnd_of_step stepped] at failed
                  have smaller := size_step (readOn_nestedPickle options)
                    stepped
                  rcases inductionHypothesis next.size (measured ▸ smaller)
                    ends.source failed rfl with report | ⟨refusal, same, later⟩
                  · exact .inl report
                  · exact .inr
                      ⟨refusal, same, later.cons fetched performed⟩

/-- Decoding a byte string gives a value or a defect with its place, or else gets
to a missing slot whose number is too long to be shown or to a key that is nested
too deep to be compared. -/
theorem decode_reports (makesRecords : options.registry.MakesRecords)
    (isStrict : options.rules.IsStrict) (content : Bytes) :
    (∃ value heap, options.decode content = .ok (value, heap)) ∨
      (∃ cause offset,
        options.decode content = .error (.defect cause (some offset)) ∧
          offset ≤ content.length) ∨
      ∃ refusal, options.decode content = .error (.refused refusal) ∧
        GetsBeyond options (startOn content) refusal := by
  have isOn : (startOn content).source.IsOn content.length
      options.registry :=
    ⟨Reader.isOn_ofBytes content, .empty⟩
  have loaded : Machine.load options
      (Machine.ofReader (.ofBytes content) .empty false) =
        runToEnd options (startOn content) :=
    load_eq options _
  unfold Options.decode Options.decodeReader
  rw [loaded]
  cases ended : runToEnd options (startOn content) with
  | ok value last => exact .inl ⟨value, _, rfl⟩
  | error failure last =>
      rcases report_of_runToEnd makesRecords isStrict isOn ended with
        ⟨cause, offset, rfl, within⟩ | ⟨refusal, rfl, beyond⟩
      · exact .inr (.inl ⟨cause, offset, rfl, within⟩)
      · exact .inr (.inr ⟨refusal, rfl, beyond⟩)

/-! ## Outcomes on fixed inputs -/

/-- The class of the defect that an outcome reports. -/
def failureClass? {α : Type} : Except Failure α → Option FailureClass
  | .error (.defect cause _) => some cause.failureClass
  | _ => none

/-- What an outcome was refused for. -/
def refusal? {α : Type} : Except Failure α → Option Refusal
  | .error (.refused refusal) => some refusal
  | _ => none

theorem eq_of_refusal? {α : Type} {outcome : Except Failure α}
    {refusal : Refusal} (isRefused : refusal? outcome = some refusal) :
    outcome = .error (.refused refusal) := by
  unfold refusal? at isRefused
  split at isRefused
  · cases isRefused
    rfl
  · cases isRefused

/-! ## A slot beyond showing -/

theorem makesRecords_oneType : oneType.registry.MakesRecords := by
  intro key binding member
  cases member with
  | head => exact .generic _ _
  | tail _ impossible => cases impossible

theorem isStrict_oneType : oneType.rules.IsStrict :=
  ⟨by decide, rfl⟩

/-- A value is taken off an empty stack, which is reported with its place. -/
theorem decode_reports_underflow :
    oneType.registry.MakesRecords ∧ oneType.rules.IsStrict ∧
      ∃ cause offset,
        oneType.decode [0x30] = .error (.defect cause (some offset)) ∧
          offset ≤ 1 := by
  have isDefect : failureClass? (oneType.decode [0x30]) =
      some .stackViolation := by
    decide +kernel
  refine ⟨makesRecords_oneType, isStrict_oneType, ?_⟩
  rcases decode_reports makesRecords_oneType isStrict_oneType [0x30] with
    ⟨value, heap, decoded⟩ | report | ⟨refusal, refused, _⟩
  · rw [decoded] at isDefect
    cases isDefect
  · exact report
  · rw [refused] at isDefect
    cases isDefect

/-- The opcode that gets a slot, with a number of so many hexadecimal digits. -/
def getBeyond (digits : Nat) : Bytes :=
  Bytes.ofString "g0x" ++ List.replicate digits 0x66 ++ [0x0A, 0x2E]

/-- The slot is missing, and there is no place in the report. -/
theorem decode_getBeyond :
    oneType.decode (getBeyond 3572) = .error (.refused .badValue) := by
  have isRefused : refusal? (oneType.decode (getBeyond 3572)) =
      some .badValue := by
    decide +kernel
  exact eq_of_refusal? isRefused

end Execution

end PickleGraph
