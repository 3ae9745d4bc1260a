import PickleGraph.Proofs.Decoding.Unframed
import PickleGraph.Proofs.Machine.Steps

/-!
# Passages of a stream

A passage is a stretch of a stream that leads a machine from certain contents to
others, whatever follows it. Passages are put together from instructions, and a
pickle is a passage before its last opcode.
-/

namespace PickleGraph

open Actions

/-- What a machine works on. -/
structure Contents where
  stack : List Value
  marks : List (List Value)
  memo : List (Nat × Value)
  heap : Heap

namespace Machine

def contents (machine : Machine) : Contents :=
  ⟨machine.stack, machine.marks, machine.memo, machine.heap⟩

/-- The machine with other contents at the same place. -/
def holding (machine : Machine) (contents : Contents) : Machine :=
  { machine with
    source := ⟨machine.source.reader, contents.heap⟩
    stack := contents.stack
    marks := contents.marks
    memo := contents.memo }

/-- The machine before the argument of the opcode that stands before it. -/
def beyond (machine : Machine) (reader : Reader) : Machine :=
  { machine with
    source := { machine.source with reader }
    offset := machine.source.reader.tell?.getD 0 }

/-- A machine with these contents before these bytes of a file. -/
def Stands (machine : Machine) (bytes : Bytes) (contents : Contents) :
    Prop :=
  machine.source.reader.Faces bytes ∧ machine.contents = contents

end Machine

namespace Execution

variable {options : Options}

/-- The stretch of code leads from the first contents to the second. -/
def Executes (options : Options) (code : Bytes) (before after : Contents) :
    Prop :=
  ∀ (rest : Bytes) (machine : Machine),
    machine.Stands (code ++ rest) before →
      ∃ next : Machine, next.Stands rest after ∧
        runToEnd options machine = runToEnd options next

/-- The instruction leads from the first contents to the second and does not
touch the input. -/
def Effect (options : Options) (instruction : Instruction)
    (before after : Contents) : Prop :=
  ∀ (nested : Decoding Value) (machine : Machine),
    ∃ next : Machine,
      execute options nested instruction (machine.holding before) =
          .ok none next ∧
        next.contents = after ∧
        next.source.reader = machine.source.reader

/-! ## Composition -/

theorem Executes.nil (contents : Contents) :
    Executes options [] contents contents :=
  fun _ machine stands => ⟨machine, stands, rfl⟩

theorem Executes.append {code more : Bytes} {before middle after : Contents}
    (first : Executes options code before middle)
    (second : Executes options more middle after) :
    Executes options (code ++ more) before after := by
  intro rest machine stands
  rw [List.append_assoc] at stands
  obtain ⟨next, nextStands, run⟩ := first _ machine stands
  obtain ⟨last, lastStands, further⟩ := second rest next nextStands
  exact ⟨last, lastStands, run.trans further⟩

theorem ofCode?_code (opcode : Opcode) :
    Opcode.ofCode? opcode.code = some opcode := by
  cases opcode <;> rfl

/-- The opcode of a machine that stands before it. -/
theorem readOpcode_of_faces {opcode : Opcode} {machine : Machine}
    {rest : Bytes}
    (faces : machine.source.reader.Faces (opcode.code :: rest)) :
    ∃ reader : Reader, reader.Faces rest ∧
      readOpcode machine = .ok opcode (machine.beyond reader) := by
  have taken : Decoding.Takes (Decoding.read 1) [opcode.code] [opcode.code] :=
    .read _ (by rw [List.length_singleton]; decide)
  obtain ⟨reader, restFaces, read⟩ := taken rest machine.source faces
  exact ⟨reader, restFaces,
    readOpcode_eq_ok_iff.mpr ⟨_, _, read, ofCode?_code opcode, rfl⟩⟩

theorem readOpcode_of_stands {opcode : Opcode} {rest : Bytes}
    {machine : Machine} {contents : Contents}
    (stands : machine.Stands (opcode.code :: rest) contents) :
    ∃ next : Machine, next.Stands rest contents ∧
      readOpcode machine = .ok opcode next := by
  obtain ⟨faces, rfl⟩ := stands
  obtain ⟨reader, restFaces, read⟩ := readOpcode_of_faces faces
  exact ⟨machine.beyond reader, ⟨restFaces, rfl⟩, read⟩

theorem runToEnd_of_step {machine next : Machine}
    (success :
      step options (nestedPickle options) machine = .ok none next) :
    runToEnd options machine = runToEnd options next :=
  calc runToEnd options machine
      = (placed (step options (nestedPickle options)) >>=
          continueWith (runToEnd options)) machine :=
        congrFun (runToEnd_eq options) machine
    _ = continueWith (runToEnd options) none next :=
        bind_of_eq_ok (placed_eq_ok_iff.mpr success)
    _ = runToEnd options next := rfl

/-- A step over an opcode with its argument has the effect of its
instruction. -/
theorem step_of_effect {opcode : Opcode} {argument rest : Bytes}
    {instruction : Instruction} {before after : Contents} {machine : Machine}
    (taken : Decoding.Takes (Instruction.ofOpcode options.rules opcode)
      argument instruction)
    (effect : Effect options instruction before after)
    (stands : machine.Stands (opcode.code :: (argument ++ rest)) before) :
    ∃ next : Machine, next.Stands rest after ∧
      step options (nestedPickle options) machine = .ok none next := by
  obtain ⟨middle, ⟨faces, same⟩, read⟩ := readOpcode_of_stands stands
  obtain ⟨reader, restFaces, parsed⟩ := taken rest middle.source faces
  obtain ⟨next, executed, nextSame, nextReader⟩ :=
    effect (nestedPickle options)
      { middle with source := { middle.source with reader } }
  have instructed : decoding (Instruction.ofOpcode options.rules opcode)
      middle = .ok instruction
        { middle with source := { middle.source with reader } } :=
    decoding_eq_ok_iff.mpr ⟨_, parsed, rfl⟩
  have held : Machine.holding
      { middle with source := { middle.source with reader } } before =
        { middle with source := { middle.source with reader } } := by
    rw [← same]
    rfl
  rw [held] at executed
  refine ⟨next.record opcode, ⟨?_, nextSame⟩, ?_⟩
  · show next.source.reader.Faces rest
    rw [nextReader]
    exact restFaces
  · rw [step_eq, bind_of_eq_ok read, perform, bind_of_eq_ok instructed,
      bind_of_eq_ok executed]
    rfl

/-- An opcode with its argument is a passage with the effect of its
instruction. -/
theorem Executes.of_effect {opcode : Opcode} {argument : Bytes}
    {instruction : Instruction} {before after : Contents}
    (taken : Decoding.Takes (Instruction.ofOpcode options.rules opcode)
      argument instruction)
    (effect : Effect options instruction before after) :
    Executes options (opcode.code :: argument) before after := by
  intro rest machine stands
  obtain ⟨next, nextStands, stepped⟩ := step_of_effect taken effect stands
  exact ⟨next, nextStands, runToEnd_of_step stepped⟩

/-- An opcode without an argument. -/
theorem Executes.bare (opcode : Opcode) {instruction : Instruction}
    {before after : Contents}
    (noArgument : Instruction.ofOpcode options.rules opcode =
      pure instruction)
    (effect : Effect options instruction before after) :
    Executes options [opcode.code] before after := by
  refine .of_effect ?_ effect
  rw [noArgument]
  exact .pure instruction

/-! ## Whole pickles -/

theorem finish_eq {machine : Machine} {value : Value}
    (marks : machine.marks = []) (stack : machine.stack = [value]) :
    finish machine = .ok value { machine with stack := [] } := by
  obtain ⟨source, values, others, memo, protocol, offset, history⟩ := machine
  cases marks
  cases stack
  rfl

theorem runToEnd_of_finish {machine last : Machine} {value : Value}
    (success :
      step options (nestedPickle options) machine = .ok (some value) last) :
    runToEnd options machine = .ok value last :=
  calc runToEnd options machine
      = (placed (step options (nestedPickle options)) >>=
          continueWith (runToEnd options)) machine :=
        congrFun (runToEnd_eq options) machine
    _ = continueWith (runToEnd options) (some value) last :=
        bind_of_eq_ok (placed_eq_ok_iff.mpr success)
    _ = .ok value last := rfl

/-- A pickle ends with the one value that is left. -/
theorem runToEnd_stop (options : Options) {rest : Bytes}
    {machine : Machine} {value : Value} {memo : List (Nat × Value)} {heap : Heap}
    (stands : machine.Stands (Opcode.stop.code :: rest)
      ⟨[value], [], memo, heap⟩) :
    ∃ last : Machine, runToEnd options machine = .ok value last ∧
      last.heap = heap ∧ last.source.reader.Faces rest := by
  obtain ⟨next, ⟨faces, same⟩, read⟩ := readOpcode_of_stands stands
  have stack : next.stack = [value] := congrArg Contents.stack same
  have marks : next.marks = [] := congrArg Contents.marks same
  refine ⟨{ next with stack := [] }, runToEnd_of_finish ?_,
    congrArg Contents.heap same, faces⟩
  have instructed :
      decoding (Instruction.ofOpcode options.rules .stop) next =
        .ok .stop next := rfl
  have executed :
      execute options (nestedPickle options) .stop next =
        .ok (some value) { next with stack := [] } :=
    bind_of_eq_ok (finish_eq marks stack)
  rw [step_eq, bind_of_eq_ok read, perform, bind_of_eq_ok instructed,
    bind_of_eq_ok executed]
  rfl

/-- A passage that leaves one value is, before the last opcode, a pickle of this
value. -/
theorem Executes.decode {code : Bytes} {value : Value}
    {memo : List (Nat × Value)} {heap : Heap}
    (passage : Executes options code ⟨[], [], [], .empty⟩
      ⟨[value], [], memo, heap⟩) (rest : Bytes) :
    options.decode (code ++ Opcode.stop.code :: rest) =
      .ok (value, heap) := by
  have stands : (startOn (code ++ Opcode.stop.code :: rest)).Stands
      (code ++ Opcode.stop.code :: rest) ⟨[], [], [], .empty⟩ :=
    ⟨⟨rfl, rfl, rfl⟩, rfl⟩
  obtain ⟨next, nextStands, run⟩ := passage _ _ stands
  obtain ⟨last, finished, same, _⟩ := runToEnd_stop options nextStands
  exact decode_eq_ok_iff.mpr ⟨last, run.trans finished, same⟩

end Execution

end PickleGraph
