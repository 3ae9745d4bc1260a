import PickleGraph.Proofs.Framing.Machine
import PickleGraph.Proofs.Machine.Passage

/-!
# Frames are transparent

A stream is cut into the opcodes that are executed, each with its argument and,
where it completes a placeholder, with the payload behind it. Runs of them may
be put into frames in any way without a change of the value that is decoded.
-/

namespace PickleGraph

open Actions

/-! ## Items -/

namespace Execution

/-- The bytes of the file that were read between two states of a machine. -/
def bytesBetween (before after : Machine) : Bytes :=
  let unread := before.source.reader.unread
  unread.take (unread.length - after.source.reader.unread.length)

/-- The bytes of every opcode that is executed, in order. -/
def itemsFrom (options : Options) : (steps : Nat) → Machine → List Bytes
  | 0, _ => []
  | steps + 1, machine =>
      match step options (nestedPickle options) machine with
      | .ok none after =>
          bytesBetween machine after :: itemsFrom options steps after
      | .ok (some _) after => [bytesBetween machine after]
      | .error _ _ => []

end Execution

/-- The opcodes of a stream that are executed before the pickle ends, each with
its argument and its payload. -/
def Options.items (options : Options) (content : Bytes) : List Bytes :=
  Execution.itemsFrom options (content.length + 1)
    (Execution.startOn content)

/-! ## Frames -/

/-- The opcode of a frame with its size. -/
def frameHeader (size : Nat) : Bytes :=
  Opcode.frame.code :: Bytes.ofNatLE 8 size

/-- Items of a stream with frames around some runs of them. A frame may also end
behind the opcode of the item that gives a record its state. -/
inductive Framing : List Bytes → Bytes → Prop
  | done : Framing [] []
  | bare {item : Bytes} {items : List Bytes} {bytes : Bytes} :
      Framing items bytes → Framing (item :: items) (item ++ bytes)
  | frame {run items : List Bytes} {bytes : Bytes} :
      run.flatten.length ≤ Instruction.maxSize →
      Framing items bytes →
      Framing (run ++ items)
        (frameHeader run.flatten.length ++ run.flatten ++ bytes)
  | frameToState {run items : List Bytes} {payload bytes : Bytes} :
      run.flatten.length + 1 ≤ Instruction.maxSize →
      Framing items bytes →
      Framing (run ++ (Opcode.build.code :: payload) :: items)
        (frameHeader (run.flatten.length + 1) ++
          (run.flatten ++ [Opcode.build.code]) ++ payload ++ bytes)

namespace Execution

variable {options : Options} {nested : Decoding Value}

/-! ## Executed items -/

/-- The items that a machine executes up to the end of the pickle, with its value
and the heap. -/
inductive Trace (options : Options) :
    Machine → List Bytes → Value → Heap → Prop
  | last {machine after : Machine} {item : Bytes} {value : Value} :
      step options (nestedPickle options) machine = .ok (some value) after →
      machine.source.reader.unread = item ++ after.source.reader.unread →
      Trace options machine [item] value after.heap
  | next {machine after : Machine} {item : Bytes} {items : List Bytes}
      {value : Value} {heap : Heap} :
      step options (nestedPickle options) machine = .ok none after →
      machine.source.reader.unread = item ++ after.source.reader.unread →
      Trace options after items value heap →
      Trace options machine (item :: items) value heap

theorem bytesBetween_append {before after : Machine}
    (spent : before.ReadOn after) :
    bytesBetween before after ++ after.source.reader.unread =
      before.source.reader.unread :=
  List.suffix_iff_eq_append.mp spent.unread

theorem unread_of_step {machine after : Machine} {result : Option Value}
    (stepped : step options (nestedPickle options) machine =
      .ok result after) :
    machine.source.reader.unread =
      bytesBetween machine after ++ after.source.reader.unread := by
  have moves : Moves Machine.ReadOn (step options (nestedPickle options)) :=
    readOn_step (readOn_nestedPickle options)
  have spent : machine.ReadOn after := by
    have moved := moves machine
    rw [stepped] at moved
    exact moved
  exact (bytesBetween_append spent).symm

/-- What a run does first, and what is left to do. -/
theorem step_of_runToEnd {machine last : Machine} {value : Value}
    (success : runToEnd options machine = .ok value last) :
    ∃ result after,
      step options (nestedPickle options) machine = .ok result after ∧
      machine.source.reader.unread =
        bytesBetween machine after ++ after.source.reader.unread ∧
      after.size < machine.size ∧
      continueWith (runToEnd options) result after = .ok value last := by
  rw [runToEnd_eq] at success
  obtain ⟨result, after, placedStep, rest⟩ := bind_eq_ok_iff.mp success
  have stepped := placed_eq_ok_iff.mp placedStep
  exact ⟨result, after, stepped, unread_of_step stepped,
    size_step (readOn_nestedPickle options) stepped, rest⟩

theorem trace_of_runToEnd {steps : Nat} {machine last : Machine}
    {value : Value} (enough : machine.size < steps)
    (success : runToEnd options machine = .ok value last) :
    Trace options machine (itemsFrom options steps machine) value
      last.heap := by
  induction steps generalizing machine with
  | zero => exact absurd enough (Nat.not_lt_zero _)
  | succ steps inductionHypothesis =>
      obtain ⟨result, after, stepped, bytes, smaller, rest⟩ :=
        step_of_runToEnd success
      unfold itemsFrom
      rw [stepped]
      cases result with
      | some final =>
          cases rest
          exact .last stepped bytes
      | none =>
          exact .next stepped bytes
            (inductionHypothesis (by omega) rest)

theorem trace_of_decode {content : Bytes} {value : Value} {heap : Heap}
    (decoded : options.decode content = .ok (value, heap)) :
    Trace options (startOn content) (options.items content) value heap := by
  obtain ⟨last, finished, rfl⟩ := decode_eq_ok_iff.mp decoded
  exact trace_of_runToEnd (Nat.lt_succ_self _) finished

theorem Trace.exists_rest {machine : Machine} {items : List Bytes}
    {value : Value} {heap : Heap}
    (trace : Trace options machine items value heap) :
    ∃ rest, machine.source.reader.unread = items.flatten ++ rest := by
  induction trace with
  | last stepped bytes =>
      rw [List.flatten_singleton]
      exact ⟨_, bytes⟩
  | next stepped bytes _ inductionHypothesis =>
      obtain ⟨rest, later⟩ := inductionHypothesis
      refine ⟨rest, ?_⟩
      rw [bytes, later, List.flatten_cons, List.append_assoc]

/-- The items of a stream that is decoded are its bytes, up to the end of the
pickle. -/
theorem flatten_items_prefix {content : Bytes} {value : Value}
    {heap : Heap} (decoded : options.decode content = .ok (value, heap)) :
    (options.items content).flatten <+: content := by
  obtain ⟨rest, bytes⟩ := (trace_of_decode decoded).exists_rest
  exact ⟨rest, bytes.symm⟩

/-! ## One item -/

theorem code_of_ofCode? {code : UInt8} {opcode : Opcode}
    (known : Opcode.ofCode? code = some opcode) : code = opcode.code := by
  have table : ∀ entry ∈ Opcode.table, entry.2.1 = entry.1.code := by
    decide
  unfold Opcode.ofCode? at known
  obtain ⟨entry, found, rfl⟩ := Option.map_eq_some_iff.mp known
  rw [← table entry (List.mem_of_find?_eq_some found)]
  exact (beq_iff_eq.mp (List.find?_eq_some_iff_append.mp found).1).symm

/-- The same machine but for its place, before the bytes in `pending`. They stand
in a frame that holds more, or past the last frame. -/
structure Serves (tail : Bytes) (more : Option Bytes) (pending : Bytes)
    (whole framed : Machine) : Prop where
  same : framed = whole.standingAt framed
  reader : Reader.Serves tail more pending framed.source.reader

variable {whole framed middle after : Machine} {opcode : Opcode}
variable {tail rest pending left item : Bytes} {more : Option Bytes}

/-- What one machine does in one piece, the other one does where it is
served. -/
theorem serves_of_follows {α : Type} {action : Execution α} {result : α}
    (follows : Follows rest tail more 0 action action)
    (holds : whole.source.reader.Holds (pending ++ rest))
    (serves : Serves tail more pending whole framed)
    (success : action whole = .ok result after)
    (unread : after.source.reader.unread = left ++ rest) :
    ∃ further, action framed = .ok result further ∧
      after.source.reader.Holds (left ++ rest) ∧
      Serves tail more left after further := by
  have ends : after.source.EndsBefore rest := ⟨left, unread.symm⟩
  obtain ⟨further, done, readers, same⟩ := follows whole framed result after
    ⟨.base holds serves.reader, serves.same⟩ success ends
  refine ⟨further, done, ?_⟩
  generalize machineReader : after.source.reader = reader at readers unread
  generalize otherReader : further.source.reader = other at readers
  cases readers with
  | base stillHolds stillServes =>
      rw [stillHolds.unread] at unread
      obtain rfl := List.append_cancel_right unread
      exact ⟨stillHolds, same, otherReader ▸ stillServes⟩

theorem holds_readOpcode {bytes : Bytes}
    (holds : whole.source.reader.Holds bytes)
    (read : readOpcode whole = .ok opcode middle) :
    ∃ more, bytes = opcode.code :: more ∧
      middle.source.reader.Holds more := by
  obtain ⟨data, source, decoded, known, rfl⟩ :=
    readOpcode_eq_ok_iff.mp read
  obtain ⟨reader, readOne, rfl⟩ := Decoding.reading_eq_ok_iff.mp decoded
  obtain ⟨left, bytes, length, leftHolds⟩ := holds.read_eq_ok readOne
  obtain ⟨byte, rfl⟩ := List.length_eq_one_iff.mp length
  have isCode : byte = opcode.code := code_of_ofCode? known
  subst isCode
  exact ⟨left, bytes, leftHolds⟩

theorem readOpcode_inv
    (holds : whole.source.reader.Holds whole.source.reader.unread)
    (read : readOpcode whole = .ok opcode middle) :
    whole.source.reader.unread =
      opcode.code :: middle.source.reader.unread := by
  obtain ⟨more, bytes, middleHolds⟩ := holds_readOpcode holds read
  rw [middleHolds.unread]
  exact bytes

/-- An executed item is an opcode and what it has read then. -/
theorem step_inv {result : Option Value}
    (nestedMoves : Moves Source.ReadOn nested)
    (holds : whole.source.reader.Holds whole.source.reader.unread)
    (stepped : step options nested whole = .ok result after)
    (bytes : whole.source.reader.unread =
      item ++ after.source.reader.unread) :
    ∃ opcode middle payload, item = opcode.code :: payload ∧
      readOpcode whole = .ok opcode middle ∧
      perform options nested opcode middle = .ok result after ∧
      middle.source.reader.unread =
        payload ++ after.source.reader.unread := by
  rw [step_eq] at stepped
  obtain ⟨opcode, middle, read, performed⟩ := bind_eq_ok_iff.mp stepped
  have moved : middle.ReadOn (finalState
      (perform options nested opcode middle)) :=
    readOn_perform nestedMoves opcode middle
  rw [performed] at moved
  obtain ⟨payload, rest⟩ := moved.unread
  have first := readOpcode_inv holds read
  rw [bytes, ← rest] at first
  refine ⟨opcode, middle, payload, ?_, read, performed, rest.symm⟩
  exact List.append_cancel_right first

section Item

variable {result : Option Value}
variable (nestedMoves : Moves Source.ReadOn nested)
variable (nestedFollows : ∀ rest tail more,
  Decoding.Follows rest tail more 0 nested nested)

include nestedMoves nestedFollows

/-- An item is executed alike if its opcode is served with the start of what it
reads then, and all that it reads is served after that. -/
theorem serves_step_of {first : UInt8} {start beyond payload end_ : Bytes}
    {others : Option Bytes}
    (holds : whole.source.reader.Holds whole.source.reader.unread)
    (serves : Serves tail more (first :: start) whole framed)
    (goesOn : ∀ reader : Reader, Reader.Serves tail more start reader →
      Reader.Serves end_ others payload reader)
    (stepped : step options nested whole = .ok result after)
    (bytes : whole.source.reader.unread =
      first :: payload ++ after.source.reader.unread)
    (cut : payload ++ after.source.reader.unread = start ++ beyond)
    (noFrame : first ≠ Opcode.frame.code) :
    ∃ further, step options nested framed = .ok result further ∧
      after.source.reader.Holds after.source.reader.unread ∧
      Serves end_ others [] after further := by
  obtain ⟨opcode, middle, payload, same, read, performed, rest⟩ :=
    step_inv nestedMoves holds stepped bytes
  obtain ⟨rfl, rfl⟩ := List.cons.inj same
  have isNoFrame : opcode = .frame → 0 < 0 := by
    rintro rfl
    exact absurd rfl noFrame
  have held : whole.source.reader.Holds
      (opcode.code :: start ++ beyond) := by
    rw [List.cons_append, ← cut, ← List.cons_append, ← bytes]
    exact holds
  obtain ⟨between, readAgain, middleHolds, served⟩ :=
    serves_of_follows follows_readOpcode held serves read (rest.trans cut)
  rw [← cut] at middleHolds
  obtain ⟨further, performedAgain, afterHolds, finished⟩ :=
    serves_of_follows (follows_perform nestedMoves
      (nestedFollows _ _ _) isNoFrame) middleHolds
      ⟨served.same, goesOn _ served.reader⟩ performed
      (List.nil_append _).symm
  refine ⟨further, ?_, afterHolds, finished⟩
  rw [step_eq, bind_of_eq_ok readAgain]
  exact performedAgain

/-- An item is executed alike wherever it is served as a whole. -/
theorem serves_step
    (holds : whole.source.reader.Holds whole.source.reader.unread)
    (serves : Serves tail more item whole framed)
    (stepped : step options nested whole = .ok result after)
    (bytes : whole.source.reader.unread = item ++ after.source.reader.unread)
    (noFrame : item.head? ≠ some Opcode.frame.code) :
    ∃ further, step options nested framed = .ok result further ∧
      after.source.reader.Holds after.source.reader.unread ∧
      Serves tail more [] after further := by
  obtain ⟨opcode, _, payload, rfl, _⟩ :=
    step_inv nestedMoves holds stepped bytes
  exact serves_step_of nestedMoves nestedFollows holds serves
    (fun _ served => served) stepped bytes rfl
    fun same => noFrame (congrArg some same)

/-- The frame may end behind the opcode. -/
theorem serves_step_payload {first : UInt8} {payload : Bytes}
    (holds : whole.source.reader.Holds whole.source.reader.unread)
    (serves : Serves (payload ++ tail) (some []) [first] whole framed)
    (stepped : step options nested whole = .ok result after)
    (bytes : whole.source.reader.unread =
      first :: payload ++ after.source.reader.unread)
    (noFrame : first ≠ Opcode.frame.code) :
    ∃ further, step options nested framed = .ok result further ∧
      after.source.reader.Holds after.source.reader.unread ∧
      Serves tail none [] after further :=
  serves_step_of nestedMoves nestedFollows holds serves
    (fun _ served => served.leave) stepped bytes (List.nil_append _).symm
    noFrame

end Item

/-! ## Opening a frame -/

/-- The opcode of a frame leaves the machine before the contents of the frame and
changes nothing else. -/
theorem step_frame {content : Bytes}
    (serves : Reader.Serves tail none (frameHeader content.length ++ content)
      framed.source.reader)
    (short : content.length ≤ Instruction.maxSize) :
    ∃ next, step options nested framed = .ok none next ∧
      next = framed.standingAt next ∧
      Reader.Serves tail (some []) content next.source.reader := by
  have narrow : content.length < 2 ^ 63 :=
    Nat.lt_of_le_of_lt short (by decide)
  have headed : Reader.Serves tail none
      ([Opcode.frame.code] ++ (Bytes.ofNatLE 8 content.length ++ content))
      framed.source.reader := serves
  obtain ⟨reader, readOne, holds⟩ :=
    headed.read_outside (by simp) (by rw [List.length_singleton]; decide)
  rw [List.append_assoc] at holds
  let before : Machine :=
    { framed with offset := framed.source.reader.tell?.getD 0 }
  let standing (reader : Reader) : Machine :=
    { before with source := { framed.source with reader } }
  have readCode : readOpcode framed = .ok .frame (standing reader) :=
    readOpcode_eq_ok_iff.mpr ⟨_, _,
      Decoding.reading_eq_ok_iff.mpr ⟨reader, readOne, rfl⟩,
      ofCode?_code .frame, rfl⟩
  have length := Bytes.length_ofNatLE 8 content.length
  obtain ⟨sized, sizedHolds, readEight⟩ :=
    holds.read (by rw [length]; decide)
  rw [length] at readEight
  have readSize : Instruction.frameSize (standing reader).source =
      .ok (.frame content.length) (standing sized).source :=
    Instruction.frameSize_eq short
      (Decoding.reading_eq_ok_iff.mpr ⟨sized, readEight, rfl⟩)
  obtain ⟨after, opened, inside⟩ := sizedHolds.openFrame narrow
  have instructed :
      decoding (Instruction.ofOpcode options.rules .frame)
        (standing reader) =
          .ok (.frame content.length) (standing sized) :=
    decoding_eq_ok_iff.mpr ⟨_, readSize, rfl⟩
  have executed :
      decoding (Decoding.reading (Reader.openFrame content.length))
        (standing sized) = .ok () (standing after) :=
    decoding_eq_ok_iff.mpr
      ⟨_, Decoding.reading_eq_ok_iff.mpr ⟨after, opened, rfl⟩, rfl⟩
  refine ⟨(standing after).record .frame, ?_, rfl, inside⟩
  rw [step_eq, bind_of_eq_ok readCode, perform, bind_of_eq_ok instructed,
    execute, execute.proceed, bind_assoc, bind_of_eq_ok executed]
  rfl

/-- A machine that is about to read a frame goes on inside the frame. -/
theorem Serves.openFrame {content : Bytes}
    (serves : Serves (frameHeader content.length ++ (content ++ tail)) none []
      whole framed)
    (short : content.length ≤ Instruction.maxSize) :
    ∃ next, step options nested framed = .ok none next ∧
      Serves tail (some []) content whole next := by
  have reader := serves.reader
  rw [← List.append_assoc] at reader
  obtain ⟨next, opened, same, inside⟩ := step_frame reader.advance short
  refine ⟨next, opened, ?_, inside⟩
  rw [same, serves.same]
  rfl

/-! ## Whole streams -/

/-- The machine decodes the pickle to this value and this heap. -/
def Finishes (options : Options) (machine : Machine) (value : Value)
    (heap : Heap) : Prop :=
  ∃ last, runToEnd options machine = .ok value last ∧ last.heap = heap

theorem Finishes.step {machine next : Machine} {value : Value} {heap : Heap}
    (finishes : Finishes options next value heap)
    (stepped :
      step options (nestedPickle options) machine = .ok none next) :
    Finishes options machine value heap := by
  obtain ⟨last, run, same⟩ := finishes
  exact ⟨last, (runToEnd_of_step stepped).trans run, same⟩

/-- What the machine in one piece does with its next item, the other one does
too, and goes on like it. -/
theorem Trace.finishes_step {items : List Bytes} {value : Value}
    {heap : Heap} {end_ : Bytes} {others : Option Bytes}
    (trace : Trace options whole (item :: items) value heap)
    (alike : ∀ {result : Option Value} {after : Machine},
      step options (nestedPickle options) whole = .ok result after →
      whole.source.reader.unread = item ++ after.source.reader.unread →
      ∃ further,
        step options (nestedPickle options) framed = .ok result further ∧
          after.source.reader.Holds after.source.reader.unread ∧
          Serves end_ others [] after further)
    (goesOn : ∀ after further : Machine,
      Trace options after items value heap →
      after.source.reader.Holds after.source.reader.unread →
      Serves end_ others [] after further →
      Finishes options further value heap) :
    Finishes options framed value heap := by
  cases trace with
  | last stepped bytes =>
      obtain ⟨further, steppedAgain, _, served⟩ := alike stepped bytes
      refine ⟨further, runToEnd_of_finish steppedAgain, ?_⟩
      rw [served.same]
      rfl
  | next stepped bytes rest =>
      obtain ⟨further, steppedAgain, holds, served⟩ := alike stepped bytes
      exact (goesOn _ further rest holds served).step steppedAgain

theorem alike_step
    (holds : whole.source.reader.Holds whole.source.reader.unread)
    (serves : Serves tail more item whole framed)
    (noFrame : item.head? ≠ some Opcode.frame.code)
    {result : Option Value} {after : Machine}
    (stepped : step options (nestedPickle options) whole =
      .ok result after)
    (bytes : whole.source.reader.unread =
      item ++ after.source.reader.unread) :
    ∃ further,
      step options (nestedPickle options) framed = .ok result further ∧
        after.source.reader.Holds after.source.reader.unread ∧
        Serves tail more [] after further :=
  serves_step (readOn_nestedPickle options)
    (fun _ _ _ => follows_nestedPickle options) holds serves stepped bytes
    noFrame

/-- The items of a frame are executed one after the other, up to what the frame
has left. -/
theorem finishes_run {run items : List Bytes} {value : Value} {heap : Heap}
    {left : Bytes} (trace : Trace options whole (run ++ items) value heap)
    (noFrame : ∀ item ∈ run, item.head? ≠ some Opcode.frame.code)
    (holds : whole.source.reader.Holds whole.source.reader.unread)
    (serves : Serves tail (some left) run.flatten whole framed)
    (goesOn : ∀ after further : Machine,
      Trace options after items value heap →
      after.source.reader.Holds after.source.reader.unread →
      Serves tail (some left) [] after further →
      Finishes options further value heap) :
    Finishes options framed value heap := by
  induction run generalizing whole framed with
  | nil => exact goesOn whole framed trace holds serves
  | cons item run inductionHypothesis =>
      obtain ⟨noFirst, noLater⟩ := List.forall_mem_cons.mp noFrame
      refine trace.finishes_step
        (alike_step holds ⟨serves.same, serves.reader.narrow⟩ noFirst) ?_
      intro after further rest stillHolds served
      exact inductionHypothesis rest noLater stillHolds
        ⟨served.same, served.reader.widen⟩

theorem finishes_framing {items : List Bytes} {bytes : Bytes}
    (framing : Framing items bytes) {value : Value} {heap : Heap}
    (trace : Trace options whole items value heap)
    (noFrame : ∀ item ∈ items, item.head? ≠ some Opcode.frame.code)
    (holds : whole.source.reader.Holds whole.source.reader.unread)
    (serves : Serves (bytes ++ tail) none [] whole framed) :
    Finishes options framed value heap := by
  induction framing generalizing whole framed with
  | done => cases trace
  | @bare item items bytes _ inductionHypothesis =>
      obtain ⟨noFirst, noLater⟩ := List.forall_mem_cons.mp noFrame
      have same := serves.same
      have reader := serves.reader
      rw [List.append_assoc] at reader
      refine trace.finishes_step
        (alike_step holds ⟨same, reader.advance⟩ noFirst) ?_
      intro after further rest stillHolds served
      exact inductionHypothesis rest noLater stillHolds served
  | @frame run items bytes short _ inductionHypothesis =>
      obtain ⟨noFirst, noLater⟩ := List.forall_mem_append.mp noFrame
      rw [List.append_assoc, List.append_assoc] at serves
      obtain ⟨next, opened, inside⟩ := serves.openFrame short
      refine Finishes.step ?_ opened
      refine finishes_run trace noFirst holds inside ?_
      intro after further rest stillHolds served
      have passed : Reader.Serves (bytes ++ tail) none []
          further.source.reader :=
        Reader.Serves.leave served.reader
      exact inductionHypothesis rest noLater stillHolds
        ⟨served.same, passed⟩
  | @frameToState run items payload bytes short _ inductionHypothesis =>
      obtain ⟨noFirst, noLater⟩ := List.forall_mem_append.mp noFrame
      obtain ⟨noState, noLater⟩ := List.forall_mem_cons.mp noLater
      have length : (run.flatten ++ [Opcode.build.code]).length =
          run.flatten.length + 1 := by
        rw [List.length_append, List.length_singleton]
      rw [List.append_assoc, List.append_assoc, List.append_assoc, ← length]
        at serves
      obtain ⟨next, opened, inside⟩ := serves.openFrame (length ▸ short)
      refine Finishes.step ?_ opened
      refine finishes_run trace noFirst holds
        ⟨inside.same, inside.reader.narrow⟩ ?_
      intro after further rest stillHolds served
      refine rest.finishes_step (fun stepped read =>
        serves_step_payload (readOn_nestedPickle options)
          (fun _ _ _ => follows_nestedPickle options) stillHolds
          ⟨served.same, served.reader.widen⟩ stepped read
          fun isFrame => noState (congrArg some isFrame)) ?_
      intro last lastFramed others lastHolds lastServed
      exact inductionHypothesis others noLater lastHolds lastServed

/-- Frames around runs of the items of a stream change neither the value that is
decoded nor the heap. -/
theorem decode_framing {content bytes : Bytes} {value : Value} {heap : Heap}
    (decoded : options.decode content = .ok (value, heap))
    (noFrame : ∀ item ∈ options.items content,
      item.head? ≠ some Opcode.frame.code)
    (framing : Framing (options.items content) bytes) (rest : Bytes) :
    options.decode (bytes ++ rest) = .ok (value, heap) := by
  have trace := trace_of_decode decoded
  have framed : (startOn (bytes ++ rest)).source.reader.Holds
      ([] ++ (bytes ++ rest)) := ⟨0, 0, rfl⟩
  exact decode_eq_ok_iff.mpr (finishes_framing framing trace noFrame
    ⟨0, 0, rfl⟩ ⟨rfl, .of_holds framed⟩)

/-- A registry of one type, `m.n`, that takes its state by position. -/
def extensionType : Options where
  registry := ⟨[(⟨[0x6D], [0x6E]⟩, ⟨.extension [0x74] .plain [] [], 0⟩)]⟩

/-- A pickle of an instance of this type with an empty state. -/
def plainInstance : Bytes :=
  [0x63, 0x6D, 0x0A, 0x6E, 0x0A, 0x29, 0x81, 0x29, 0x62, 0x2E]

/-- The same pickle with a frame around the type and its arguments, one up to the
opcode that gives the state, and an empty one. -/
def framedInstance : Bytes :=
  [0x95, 6, 0, 0, 0, 0, 0, 0, 0, 0x63, 0x6D, 0x0A, 0x6E, 0x0A, 0x29] ++
    ([0x81] ++ ([0x95, 2, 0, 0, 0, 0, 0, 0, 0, 0x29, 0x62] ++
      ([0x95, 0, 0, 0, 0, 0, 0, 0, 0] ++ [0x2E])))

theorem framing_framedInstance :
    Framing (extensionType.items plainInstance) framedInstance := by
  have items : extensionType.items plainInstance =
      [[0x63, 0x6D, 0x0A, 0x6E, 0x0A], [0x29]] ++ ([0x81] ::
        ([[0x29]] ++ [0x62] :: ([] ++ [[0x2E]]))) := by
    decide +kernel
  rw [items]
  have stop : Framing [[0x2E]] [0x2E] := .bare .done
  have empty : Framing ([] ++ [[0x2E]])
      ([0x95, 0, 0, 0, 0, 0, 0, 0, 0] ++ [0x2E]) :=
    .frame (by decide) stop
  have stated : Framing ([[0x29]] ++ [0x62] :: ([] ++ [[0x2E]])) _ :=
    .frameToState (by decide) empty
  exact .frame (by decide) (.bare stated)

/-- The pickle and the framed one decode to the same record. -/
theorem decode_framedInstance :
    ∃ value heap,
      extensionType.decode plainInstance = .ok (value, heap) ∧
        (heap.record? value).isSome = true ∧
        extensionType.decode (framedInstance ++ []) = .ok (value, heap) := by
  have success : (match extensionType.decode plainInstance with
      | .ok (value, heap) => (heap.record? value).isSome
      | .error _ => false) = true := by
    decide +kernel
  have noFrame : ∀ item ∈ extensionType.items plainInstance,
      item.head? ≠ some Opcode.frame.code := by
    decide +kernel
  generalize result : extensionType.decode plainInstance = outcome at success
  cases outcome with
  | error failure => exact absurd success Bool.false_ne_true
  | ok final =>
      obtain ⟨value, heap⟩ := final
      exact ⟨value, heap, rfl, success,
        decode_framing result noFrame framing_framedInstance []⟩

end Execution

end PickleGraph
