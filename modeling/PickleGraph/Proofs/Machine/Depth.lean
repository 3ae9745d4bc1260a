import PickleGraph.Proofs.Machine.Demand
import PickleGraph.Proofs.Machine.Passage

/-!
# The discipline of the stack

The depths of a machine follow from the opcodes that it has completed, whatever
their arguments and whatever the values on its stack. It is the depths alone
that decide whether an opcode can be completed as far as the stack is concerned,
and the value of a pickle is the one that is left when no mark is.
-/

namespace PickleGraph

open Actions

namespace Execution

variable {options : Options} {nested : Decoding Value}

/-! ## Opcodes -/

/-- Reading the argument of an opcode leaves the stack alone. -/
theorem argument_meets (opcode : Opcode) (before : Depths) :
    Meets (fun machine : Machine => machine.depths = before)
      (decoding (Instruction.ofOpcode options.rules opcode))
      (fun instruction machine =>
        instruction.demand = opcode.demand ∧ machine.depths = before)
      (fun failure _ => Instruction.FailsFor opcode failure) := by
  intro machine here
  have argues := (Instruction.argues_failsFor options.rules opcode).ofOpcode
    machine.source trivial
  have demand := Instruction.demand_ofOpcode options.rules opcode
    machine.source
  unfold decoding
  cases outcome : Instruction.ofOpcode options.rules opcode
      machine.source with
  | ok instruction source => exact ⟨demand _ _ outcome, here⟩
  | error failure source =>
      rw [outcome] at argues
      exact argues

theorem record_still (opcode : Opcode) (result : Option Value)
    (depths : Depths) (fails : Failure → Machine → Prop) :
    Meets (fun machine : Machine => machine.depths = depths)
      (do
        if result.isNone then
          modify (·.record opcode)
        return result)
      (fun _ machine => machine.depths = depths) fails := by
  split
  · exact .bind (Meets.change fun _ here => here) fun _ =>
      Meets.pure fun _ here => here
  · exact Meets.pure fun _ here => here

/-- What a step does with an opcode fits the demand of the opcode. -/
theorem fits_perform (isStored : options.IsStored) (opcode : Opcode) :
    Fits opcode.demand (perform options nested opcode) := by
  intro before
  have executes : ∀ instruction : Instruction,
      instruction.demand = opcode.demand →
      Fits opcode.demand (do
        let result ← execute options nested instruction
        if result.isNone then
          modify (·.record opcode)
        return result) := by
    intro instruction same
    rw [← same]
    exact (fits_execute isStored nested instruction).bind_still
      fun result => record_still opcode result
  split
  · next after meets =>
      have argument : Meets (fun machine : Machine => machine.depths = before)
          (decoding (Instruction.ofOpcode options.rules opcode))
          (fun instruction machine =>
            instruction.demand = opcode.demand ∧ machine.depths = before)
          (fun failure _ => failure.IsApart) :=
        (argument_meets opcode before).mono (fun _ here => here)
          (fun _ _ ends => ends) (fun _ _ failed => failed.1)
      refine Meets.bind argument fun instruction => ?_
      rintro machine ⟨same, here⟩
      have runs := executes instruction same before
      rw [meets] at runs
      exact runs machine here
  · next misses =>
      have argument : Meets (fun machine : Machine => machine.depths = before)
          (decoding (Instruction.ofOpcode options.rules opcode))
          (fun instruction machine =>
            instruction.demand = opcode.demand ∧ machine.depths = before)
          (fun failure _ => failure.isRefusal = false) := by
        refine (argument_meets opcode before).mono (fun _ here => here)
          (fun _ _ ends => ends) (fun failure _ failed => ?_)
        by_contra refused
        have pushes := failed.2 (Bool.not_eq_false _ ▸ refused)
        obtain ⟨stack, aside⟩ := before
        rw [pushes, Demand.apply_values_zero] at misses
        cases misses
      refine Meets.bind argument fun instruction => ?_
      rintro machine ⟨same, here⟩
      have stuck := executes instruction same before
      rw [misses] at stuck
      exact stuck machine here

theorem depths_readOpcode {machine middle : Machine} {opcode : Opcode}
    (read : readOpcode machine = .ok opcode middle) :
    middle.depths = machine.depths := by
  obtain ⟨data, source, _, _, rfl⟩ := readOpcode_eq_ok_iff.mp read
  rfl

/-- An opcode that is completed has met its demand. -/
theorem depths_perform (isStored : options.IsStored) {opcode : Opcode}
    {middle after : Machine} {result : Option Value}
    (performed : perform options nested opcode middle = .ok result after) :
    opcode.demand.apply middle.depths = some after.depths := by
  have fits : Fits opcode.demand (perform options nested opcode) :=
    fits_perform isStored opcode
  have fits := fits middle.depths
  cases applied : opcode.demand.apply middle.depths with
  | some depths =>
      rw [applied] at fits
      exact congrArg some (fits.of_ok rfl performed).symm
  | none =>
      rw [applied] at fits
      exact absurd (fits.of_ok rfl performed) id

/-! ## The last opcode -/

/-- Only the opcode that ends a pickle gives a value, which is the only one on
the stack when no mark is left. -/
theorem execute_eq_some {instruction : Instruction}
    {middle after : Machine} {value : Value}
    (executed :
      execute options nested instruction middle = .ok (some value) after) :
    instruction = .stop ∧ middle.stack = [value] ∧ middle.marks = [] ∧
      after = { middle with stack := [] } := by
  have silent : ∀ {action : Execution Unit},
      execute.proceed action middle ≠ .ok (some value) after := by
    intro action proceeded
    obtain ⟨_, _, _, done⟩ := bind_eq_ok_iff.mp proceeded
    cases done
  cases instruction with
  | stop =>
      obtain ⟨final, last, finished, done⟩ := bind_eq_ok_iff.mp executed
      cases done
      have fits := fits_finish middle.depths
      obtain ⟨source, values, marks, memo, protocol, offset, history⟩ :=
        middle
      by_cases ready : values.length = 1 ∧ marks = []
      · obtain ⟨single, rfl⟩ := ready
        obtain ⟨only, rfl⟩ := List.length_eq_one_iff.mp single
        cases finished
        exact ⟨rfl, rfl, rfl, rfl⟩
      · have misses : Demand.stop.apply
            ⟨values.length, marks.map List.length⟩ = none := by
          unfold Demand.apply
          split <;> simp_all
        rw [Machine.depths, misses] at fits
        exact absurd (fits.of_ok rfl finished) id
  | _ => exact absurd executed silent

theorem perform_eq_some_iff {opcode : Opcode} {middle after : Machine}
    {value : Value} :
    perform options nested opcode middle = .ok (some value) after ↔
      opcode = .stop ∧ middle.stack = [value] ∧ middle.marks = [] ∧
        after = { middle with stack := [] } := by
  constructor
  · intro performed
    obtain ⟨instruction, further, parsed, rest⟩ := bind_eq_ok_iff.mp performed
    obtain ⟨result, last, executed, recorded⟩ := bind_eq_ok_iff.mp rest
    obtain ⟨source, argued, rfl⟩ := decoding_eq_ok_iff.mp parsed
    have same : result = some value ∧ last = after := by
      cases result with
      | none => cases recorded
      | some other => cases recorded; exact ⟨rfl, rfl⟩
    obtain ⟨rfl, rfl⟩ := same
    obtain ⟨rfl, stack, marks, ended⟩ := execute_eq_some executed
    have demand := Instruction.demand_ofOpcode options.rules opcode _ _ _
      argued
    have isStop : opcode = .stop := by
      cases opcode <;> first
        | rfl
        | cases demand
    subst isStop
    cases argued
    exact ⟨rfl, stack, marks, ended⟩
  · rintro ⟨rfl, stack, marks, rfl⟩
    have executed : execute options nested .stop middle =
        .ok (some value) { middle with stack := [] } :=
      bind_of_eq_ok (finish_eq marks stack)
    have parsed : decoding (Instruction.ofOpcode options.rules .stop) middle =
        .ok .stop middle := rfl
    rw [perform, bind_of_eq_ok parsed, bind_of_eq_ok executed]
    rfl

/-! ## Completed opcodes -/

/-- The machine completes these opcodes, one after the other. -/
inductive Completes (options : Options) :
    Machine → List Opcode → Machine → Prop
  | nil (machine : Machine) : Completes options machine [] machine
  | cons {machine middle after last : Machine} {opcode : Opcode}
      {opcodes : List Opcode} :
      readOpcode machine = .ok opcode middle →
      perform options (nestedPickle options) opcode middle =
        .ok none after →
      Completes options after opcodes last →
      Completes options machine (opcode :: opcodes) last

theorem Completes.depths (isStored : options.IsStored)
    {machine last : Machine} {opcodes : List Opcode}
    (completes : Completes options machine opcodes last) :
    Depths.after opcodes machine.depths = some last.depths := by
  induction completes with
  | nil machine => rfl
  | cons read performed _ inductionHypothesis =>
      have applied := depths_perform isStored performed
      rw [depths_readOpcode read] at applied
      rw [Depths.after, applied]
      exact inductionHypothesis

theorem Completes.runToEnd {machine last : Machine} {opcodes : List Opcode}
    (completes : Completes options machine opcodes last) :
    runToEnd options machine = runToEnd options last := by
  induction completes with
  | nil machine => rfl
  | cons read performed _ inductionHypothesis =>
      rw [← inductionHypothesis]
      refine runToEnd_of_step ?_
      rw [step_eq, bind_of_eq_ok read]
      exact performed

/-- A run ends where a step of it fails, with the failure of the step, placed. -/
theorem runToEnd_of_step_error {machine after : Machine} {failure : Failure}
    (failed : step options (nestedPickle options) machine =
      .error failure after) :
    runToEnd options machine =
      placed (throw failure : Execution Value) after := by
  have placedStep : placed (step options (nestedPickle options)) machine =
      placed (throw failure : Execution (Option Value)) after := by
    unfold placed
    rw [failed]
    rfl
  rw [runToEnd_eq]
  exact bind_of_eq_error placedStep

theorem runToEnd_of_error {machine middle after : Machine} {opcode : Opcode}
    {failure : Failure} (read : readOpcode machine = .ok opcode middle)
    (failed : perform options (nestedPickle options) opcode middle =
      .error failure after) :
    runToEnd options machine =
      placed (throw failure : Execution Value) after := by
  apply runToEnd_of_step_error
  rw [step_eq, bind_of_eq_ok read]
  exact failed

/-- A run that ends with a value has completed opcodes up to the last one. -/
theorem completes_of_runToEnd {machine after : Machine} {value : Value}
    (finished : runToEnd options machine = .ok value after) :
    ∃ opcodes last middle, Completes options machine opcodes last ∧
      readOpcode last = .ok .stop middle ∧
      middle.stack = [value] ∧ middle.marks = [] ∧
      after = { middle with stack := [] } := by
  induction size : machine.size using Nat.strongRecOn
    generalizing machine with
  | ind size inductionHypothesis =>
      rw [runToEnd_eq] at finished
      obtain ⟨result, next, placedStep, rest⟩ := bind_eq_ok_iff.mp finished
      have stepped := placed_eq_ok_iff.mp placedStep
      have smaller := size_step (readOn_nestedPickle options) stepped
      rw [step_eq] at stepped
      obtain ⟨opcode, middle, read, performed⟩ := bind_eq_ok_iff.mp stepped
      cases result with
      | some final =>
          cases rest
          obtain ⟨rfl, stack, marks, ended⟩ :=
            perform_eq_some_iff.mp performed
          exact ⟨[], machine, middle, .nil _, read, stack, marks, ended⟩
      | none =>
          obtain ⟨opcodes, last, further, completes, ends⟩ :=
            inductionHypothesis next.size (size ▸ smaller) rest rfl
          exact ⟨opcode :: opcodes, last, further,
            .cons read performed completes, ends⟩

/-! ## The discipline -/

/-- The depths after completed opcodes are those of the abstract machine. An
opcode whose demand they do not meet fails with a defect, and one whose demand
they meet may fail but does not blame the depths. Loading gives a value exactly
where the last opcode finds no mark and one value, which is the one that is
given. -/
theorem load_depths (isStored : options.IsStored) (machine : Machine) :
    (∀ opcodes last, Completes options machine.restart opcodes last →
      Depths.after opcodes ⟨0, []⟩ = some last.depths ∧
      ∀ opcode middle, readOpcode last = .ok opcode middle →
        (opcode.demand.apply last.depths = none →
          ∃ cause offset after, Machine.load options machine =
            .error (.defect cause (some offset)) after) ∧
        (opcode.demand.apply last.depths ≠ none →
          ∀ failure after, perform options (nestedPickle options) opcode
            middle = .error failure after → failure.IsApart)) ∧
    ∀ value after, Machine.load options machine = .ok value after ↔
      ∃ opcodes last middle,
        Completes options machine.restart opcodes last ∧
        readOpcode last = .ok .stop middle ∧
        middle.stack = [value] ∧ middle.marks = [] ∧
        after = { middle with stack := [] } := by
  rw [load_eq]
  constructor
  · intro opcodes last completes
    refine ⟨completes.depths isStored, fun opcode middle read => ?_⟩
    have fits : Fits opcode.demand
        (perform options (nestedPickle options) opcode) :=
      fits_perform isStored opcode
    have fits := fits middle.depths
    rw [depths_readOpcode read] at fits
    constructor
    · intro misses
      rw [misses] at fits
      have met := fits middle (depths_readOpcode read)
      cases performed :
          perform options (nestedPickle options) opcode middle with
      | ok result after =>
          rw [performed] at met
          exact absurd met id
      | error failure after =>
          rw [performed] at met
          rw [completes.runToEnd, runToEnd_of_error read performed]
          cases failure with
          | defect cause offset =>
              cases offset with
              | none => exact ⟨cause, after.offset, after, rfl⟩
              | some offset => exact ⟨cause, offset, after, rfl⟩
          | refused refusal => cases met
          | source fault => exact ⟨_, after.offset, after, rfl⟩
    · intro meets failure after failed
      obtain ⟨depths, applied⟩ := Option.ne_none_iff_exists'.mp meets
      rw [applied] at fits
      exact fits.of_error (depths_readOpcode read) failed
  · intro value after
    constructor
    · exact completes_of_runToEnd
    · rintro ⟨opcodes, last, middle, completes, read, stack, marks, rfl⟩
      rw [completes.runToEnd]
      refine runToEnd_of_finish ?_
      rw [step_eq, bind_of_eq_ok read]
      exact perform_eq_some_iff.mpr ⟨rfl, stack, marks, rfl⟩

/-- A machine before a pickle of a list of one item above a mark. -/
def oneList : Machine :=
  Machine.ofReader (.ofBytes [0x28, 0x4B, 0x01, 0x6C, 0x2E]) .empty false

/-- The list is given: it is the only value left, and the depths before the last
opcode are those of the abstract machine. -/
theorem load_depths_oneList :
    Options.standard.IsStored ∧
      ∃ value after, Machine.load .standard oneList = .ok value after ∧
        ∃ opcodes last middle,
          Completes .standard oneList.restart opcodes last ∧
          readOpcode last = .ok .stop middle ∧
          middle.stack = [value] ∧ middle.marks = [] ∧
          Depths.after opcodes ⟨0, []⟩ = some last.depths := by
  have isStored : Options.standard.IsStored := .nowhere _ _ _
  have isOk : succeeds (Machine.load .standard oneList) = true := by
    decide +kernel
  refine ⟨isStored, ?_⟩
  cases loaded : Machine.load .standard oneList with
  | error failure after =>
      rw [loaded] at isOk
      cases isOk
  | ok value after =>
      obtain ⟨depths, ends⟩ := load_depths isStored oneList
      obtain ⟨opcodes, last, middle, completes, read, stack, marks, _⟩ :=
        (ends value after).mp loaded
      exact ⟨value, after, rfl, opcodes, last, middle, completes, read, stack,
        marks, (depths opcodes last completes).1⟩

end Execution

end PickleGraph
