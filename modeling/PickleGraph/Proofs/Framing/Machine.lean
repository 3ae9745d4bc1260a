import PickleGraph.Proofs.Framing.Matching
import PickleGraph.Proofs.Machine.Steps

/-!
# Machines on matching readers

A machine that reads a stretch of a stream in one piece and one that is served
the stretch through frames execute the same instructions with the same effects:
arguments and payloads that are decoded in one piece are decoded to the same
values through frames. The machines of the pickles inside do so to the end,
whatever frames they open themselves.
-/

namespace PickleGraph

open Actions

/-! ## Matching sources -/

/-- Sources with matching readers and one heap. -/
structure Source.Matches (rest tail : Bytes) (more : Option Bytes)
    (depth : Nat) (whole framed : Source) : Prop where
  reader : Reader.Matches rest tail more depth whole.reader framed.reader
  heap : whole.heap = framed.heap

/-- The rest of the stream has not been read. -/
def Source.EndsBefore (rest : Bytes) (source : Source) : Prop :=
  rest <:+ source.reader.unread

namespace Decoding

variable {α : Type}

/-- Where an action succeeds in one piece, the other one gives the same through
frames. -/
abbrev Follows (rest tail : Bytes) (more : Option Bytes) (depth : Nat)
    (first second : Decoding α) : Prop :=
  Simulates (Source.Matches rest tail more depth) (Source.EndsBefore rest)
    first second

theorem recalls_of_readOn {rest : Bytes} {action : Decoding α}
    (moves : Moves Source.ReadOn action) :
    Moves (fun before after : Source =>
      after.EndsBefore rest → before.EndsBefore rest) action :=
  .mono (fun _ _ spent ends => ends.trans spent.unread) moves

variable {rest tail : Bytes} {more : Option Bytes} {depth : Nat}

theorem follows_read (count : Nat) :
    Follows rest tail more depth (read count) (read count) := by
  intro before other data after start success ends
  obtain ⟨reader, readOnce, rfl⟩ := reading_eq_ok_iff.mp success
  obtain ⟨further, readAgain, still⟩ := start.reader.read readOnce ends
  exact ⟨_, reading_eq_ok_iff.mpr ⟨further, readAgain, rfl⟩,
    still, start.heap⟩

theorem follows_readLine :
    Follows rest tail more depth readLine readLine := by
  intro before other data after start success ends
  obtain ⟨reader, readOnce, rfl⟩ := reading_eq_ok_iff.mp success
  obtain ⟨further, readAgain, still⟩ := start.reader.readLine readOnce ends
  exact ⟨_, reading_eq_ok_iff.mpr ⟨further, readAgain, rfl⟩,
    still, start.heap⟩

theorem follows_openFrame (size : Nat) :
    Follows rest tail more (depth + 1)
      (reading (Reader.openFrame size))
      (reading (Reader.openFrame size)) := by
  intro before other data after start success ends
  obtain ⟨reader, opened, rfl⟩ := reading_eq_ok_iff.mp success
  obtain ⟨further, openedAgain, still⟩ :=
    start.reader.openFrame opened ends
  exact ⟨_, reading_eq_ok_iff.mpr ⟨further, openedAgain, rfl⟩,
    still, start.heap⟩

/-- Parallel actions follow each other if the decoders of the pickles inside
do. -/
theorem Parallel.follows {nested other : Decoding Value}
    (nestedMoves : Moves Source.ReadOn nested)
    (nestedFollows : Follows rest tail more depth nested other)
    {first second : Decoding α}
    (parallel : Parallel nested other first second) :
    Follows rest tail more depth first second := by
  induction parallel with
  | pure result => exact .pure result
  | throw failure otherFailure => exact .throw failure otherFailure
  | bind _ next firstFollows nextFollows =>
      exact .bind firstFollows (fun value => recalls_of_readOn
        ((next value).moves Source.admits_readOn nestedMoves)) nextFollows
  | tell _ nextFollows =>
      intro before other result after start success ends
      exact nextFollows before.reader.tell? other.reader.tell? before other
        result after start success ends
  | read count => exact follows_read count
  | readLine => exact follows_readLine
  | build grows =>
      intro before other result after start success ends
      obtain ⟨heap, made, rfl⟩ := build_eq_ok_iff.mp success
      rw [start.heap] at made
      exact ⟨_, build_eq_ok_iff.mpr ⟨heap, made, rfl⟩, start.reader, rfl⟩
  | mapFailure change otherChange _ actionFollows =>
      intro before other result after start success ends
      obtain ⟨further, followed, still⟩ := actionFollows before other result
        after start (mapFailure_eq_ok_iff.mp success) ends
      exact ⟨further, mapFailure_eq_ok_iff.mpr followed, still⟩
  | onReader reader _ _ =>
      -- Both sides read the same other file, so they do the very same.
      intro before other result after start success ends
      obtain ⟨further, done, rfl⟩ := onReader_eq_ok_iff.mp success
      have same : { before with reader } = { other with reader } := by
        rw [start.heap]
      rw [same] at done
      exact ⟨_, onReader_eq_ok_iff.mpr ⟨further, done, rfl⟩,
        start.reader, rfl⟩
  | nested => exact nestedFollows

end Decoding

/-! ## Matching machines -/

/-- Machines on matching readers that are the same but for their places. -/
structure Machine.Matches (rest tail : Bytes) (more : Option Bytes)
    (depth : Nat) (whole framed : Machine) : Prop where
  reader : Reader.Matches rest tail more depth whole.source.reader
    framed.source.reader
  same : framed = whole.standingAt framed

theorem Machine.Matches.heap {rest tail : Bytes} {more : Option Bytes}
    {depth : Nat} {whole framed : Machine}
    (alike : Matches rest tail more depth whole framed) :
    framed.heap = whole.heap := by
  rw [alike.same]
  rfl

namespace Execution

/-- Where a machine succeeds in one piece, the other one does the same through
frames. -/
abbrev Follows {α : Type} (rest tail : Bytes) (more : Option Bytes)
    (depth : Nat) (first second : Execution α) : Prop :=
  Simulates (Machine.Matches rest tail more depth)
    (fun machine => machine.source.EndsBefore rest) first second

theorem recalls_of_readOn {α : Type} {rest : Bytes} {action : Execution α}
    (moves : Moves Machine.ReadOn action) :
    Moves (fun before after : Machine => after.source.EndsBefore rest →
      before.source.EndsBefore rest) action :=
  .mono (fun _ _ spent ends => ends.trans spent.unread) moves

variable {α : Type} {rest tail : Bytes} {more : Option Bytes} {depth : Nat}

/-! ## Parts of instructions -/

theorem Stationary.follows {action : Execution α}
    (stationary : Stationary action) :
    Follows rest tail more depth action action := by
  intro before other result after start success _
  have moved := stationary before other
  have stays := stationary.source_reader before
  rw [success] at moved stays
  rw [← start.same] at moved
  refine ⟨_, moved, ?_, rfl⟩
  have reader := start.reader
  rw [← stays] at reader
  exact reader

theorem follows_decoding {first second : Decoding α}
    (follows : Decoding.Follows rest tail more depth first second) :
    Follows rest tail more depth (decoding first) (decoding second) := by
  intro before other result after start success ends
  obtain ⟨source, decoded, rfl⟩ := decoding_eq_ok_iff.mp success
  have sources : Source.Matches rest tail more depth before.source
      other.source :=
    ⟨start.reader, start.heap.symm⟩
  obtain ⟨further, decodedAgain, still⟩ :=
    follows _ _ result source sources decoded ends
  refine ⟨_, decoding_eq_ok_iff.mpr ⟨further, decodedAgain, rfl⟩,
    still.reader, ?_⟩
  rw [start.same]
  show Machine.mk further _ _ _ _ _ _ = Machine.mk ⟨_, source.heap⟩ _ _ _ _ _ _
  rw [still.heap]
  rfl

theorem follows_readOpcode :
    Follows rest tail more depth readOpcode readOpcode := by
  intro before other opcode after start success ends
  obtain ⟨data, source, read, known, rfl⟩ := readOpcode_eq_ok_iff.mp success
  have decoded : decoding (Decoding.read 1) before =
      .ok data { before with source } :=
    decoding_eq_ok_iff.mpr ⟨source, read, rfl⟩
  obtain ⟨further, decodedAgain, still⟩ :=
    follows_decoding (Decoding.follows_read 1) before other data _ start
      decoded ends
  obtain ⟨otherSource, readAgain, rfl⟩ := decoding_eq_ok_iff.mp decodedAgain
  refine ⟨_, readOpcode_eq_ok_iff.mpr ⟨data, otherSource, readAgain, known,
    rfl⟩, still.reader, ?_⟩
  exact congrArg (fun machine : Machine =>
    { machine with offset := other.source.reader.tell?.getD 0 }) still.same

theorem follows_record (opcode : Opcode) :
    Follows rest tail more depth
      (modify (·.record opcode) : Execution Unit)
      (modify (·.record opcode)) := by
  rintro before other _ _ start ⟨⟩ _
  refine ⟨other.record opcode, rfl, start.reader, ?_⟩
  exact congrArg (fun machine : Machine =>
    { machine with history? := (other.record opcode).history? }) start.same

/-! ## Instructions -/

section Steps

variable {options : Options} {nested : Decoding Value}
variable (nestedMoves : Moves Source.ReadOn nested)
variable (nestedFollows : Decoding.Follows rest tail more depth nested nested)

include nestedMoves nestedFollows

theorem follows_fillPlaceholder (address : Address) (record : Record) :
    Follows rest tail more depth
      (fillPlaceholder options nested address record)
      (fillPlaceholder options nested address record) := by
  unfold fillPlaceholder
  split
  · next layout _ =>
    have parallel : Decoding.Parallel nested nested _ _ :=
      Payload.parallel_materialize options layout record
    exact .bind
      (follows_decoding (parallel.follows nestedMoves nestedFollows))
      (fun array =>
        recalls_of_readOn (Stationary.putArray address array).readOn)
      fun array => (Stationary.putArray address array).follows
  · exact .pure _

/-- At the bottom no frame is opened, since only one of the two readers could
open it. -/
theorem follows_execute {instruction : Instruction}
    (opens : ∀ size, instruction = .frame size → 0 < depth) :
    Follows rest tail more depth (execute options nested instruction)
      (execute options nested instruction) := by
  have done : ∀ _ : Unit,
      Moves Machine.ReadOn (pure none : Execution (Option Value)) :=
    fun _ => .pure none
  by_cases isFrame : ∃ size, instruction = .frame size
  · obtain ⟨size, rfl⟩ := isFrame
    obtain ⟨depth, rfl⟩ :=
      Nat.exists_eq_succ_of_ne_zero (Nat.ne_zero_of_lt (opens size rfl))
    exact .bind (follows_decoding (Decoding.follows_openFrame size))
      (fun _ => recalls_of_readOn (done ())) fun _ => .pure none
  by_cases isBuild : instruction = .build
  · subst isBuild
    refine .bind ?_ (fun _ => recalls_of_readOn (done ()))
      fun _ => .pure none
    rw [giveState_eq]
    exact .bind Stationary.applyToTop.follows
      (fun target => recalls_of_readOn
        (readOn_fillPlaceholder nestedMoves _ _))
      fun target =>
        follows_fillPlaceholder nestedMoves nestedFollows _ _
  · exact (stationary_execute options nested instruction
      (fun size same => isFrame ⟨size, same⟩) isBuild).follows

theorem follows_perform {opcode : Opcode}
    (opens : opcode = .frame → 0 < depth) :
    Follows rest tail more depth (perform options nested opcode)
      (perform options nested opcode) := by
  have parallel : Decoding.Parallel nested nested _ _ :=
    Instruction.parallel_ofOpcode options.rules opcode
  have records : ∀ result : Option Value, Moves Machine.ReadOn (do
      if result.isNone then
        modify (·.record opcode)
      return result : Execution (Option Value)) := by
    intro result
    dsimp only
    split
    · exact .bind (fun machine => refl_of Machine.ReadOn machine)
        fun _ => .pure _
    · exact .pure _
  refine .bind_of_ok
    (follows_decoding (parallel.follows nestedMoves nestedFollows))
    (fun instruction => recalls_of_readOn
      (.bind (readOn_execute nestedMoves instruction) records))
    fun instruction before middle outcome => ?_
  obtain ⟨source, parsed, _⟩ := decoding_eq_ok_iff.mp outcome
  have suits := Instruction.suits_ofOpcode options.rules opcode
    before.source instruction source parsed
  refine .bind (follows_execute nestedMoves nestedFollows ?_)
    (fun result => recalls_of_readOn (records result)) fun result => ?_
  · rintro size rfl
    exact opens suits
  · dsimp only
    split
    · exact .bind (follows_record opcode)
        (fun _ => recalls_of_readOn (.pure _)) fun _ => .pure _
    · exact .pure _

end Steps

theorem follows_step {options : Options} {nested : Decoding Value}
    (nestedMoves : Moves Source.ReadOn nested)
    (nestedFollows :
      Decoding.Follows rest tail more (depth + 1) nested nested) :
    Follows rest tail more (depth + 1) (step options nested)
      (step options nested) :=
  .bind follows_readOpcode
    (fun opcode => recalls_of_readOn (readOn_perform nestedMoves opcode))
    fun _ => follows_perform nestedMoves nestedFollows
      fun _ => Nat.succ_pos depth

/-! ## Pickles inside -/

theorem follows_placed {first second : Execution α}
    (follows : Follows rest tail more depth first second) :
    Follows rest tail more depth (placed first) (placed second) := by
  intro before other result after start success ends
  obtain ⟨further, done, still⟩ := follows before other result after start
    (placed_eq_ok_iff.mp success) ends
  exact ⟨further, placed_eq_ok_iff.mpr done, still⟩

theorem inside_eq_ok_iff {action : Execution Value} {source after : Source}
    {value : Value} :
    inside action source = .ok value after ↔
      ∃ machine, action (Machine.ofReader source.reader source.heap false) =
          .ok value machine ∧
        after = ⟨machine.source.reader.beneath, machine.heap⟩ := by
  unfold inside
  cases action (Machine.ofReader source.reader source.heap false) with
  | ok result machine =>
      constructor
      · rintro ⟨⟩
        exact ⟨machine, rfl, rfl⟩
      · rintro ⟨_, ⟨⟩, rfl⟩
        rfl
  | error failure machine => simp

theorem unread_beneath (reader : Reader) :
    reader.beneath.unread = reader.unread := by
  cases reader <;> rfl

/-- A pickle inside is read through one more reader. -/
theorem follows_inside {action : Execution Value}
    (follows : Follows rest tail more (depth + 1) action action) :
    Decoding.Follows rest tail more depth (inside action)
      (inside action) := by
  intro before other value after start success ends
  obtain ⟨machine, finished, rfl⟩ := inside_eq_ok_iff.mp success
  have inner : Machine.Matches rest tail more (depth + 1)
      (Machine.ofReader before.reader before.heap false)
      (Machine.ofReader other.reader other.heap false) := by
    refine ⟨.nested start.reader rfl, ?_⟩
    rw [start.heap]
    rfl
  have endsInside : machine.source.EndsBefore rest := by
    unfold Source.EndsBefore at *
    rwa [unread_beneath] at ends
  obtain ⟨further, finishedAgain, still⟩ :=
    follows _ _ value machine inner finished endsInside
  refine ⟨_, inside_eq_ok_iff.mpr ⟨further, finishedAgain, rfl⟩, ?_, ?_⟩
  · have readers := still.reader
    generalize machine.source.reader = reader at readers
    generalize further.source.reader = otherReader at readers
    cases readers with
    | nested below _ => exact below
  · exact still.heap.symm

theorem follows_run (steps : Nat) (options : Options) :
    Follows rest tail more (depth + 1) (run steps options)
      (run steps options) := by
  induction steps generalizing options depth with
  | zero => exact follows_placed (.throw _ _)
  | succ steps inductionHypothesis =>
      rw [run_succ]
      refine .bind (follows_placed (follows_step
          (readOn_inside (readOn_run steps _))
          (follows_inside (inductionHypothesis _))))
        (fun result => recalls_of_readOn ?_) fun result => ?_
      · cases result with
        | some value => exact .pure value
        | none => exact readOn_run steps options
      · cases result with
        | some value => exact .pure value
        | none => exact inductionHypothesis options

/-- Both machines take as many steps, but they may have different bounds. -/
theorem follows_runToEnd (options : Options) :
    Follows rest tail more (depth + 1) (runToEnd options)
      (runToEnd options) := by
  intro before other value after start success ends
  have steps : ∃ steps, before.size < steps ∧ other.size < steps :=
    ⟨before.size + other.size + 1, by omega, by omega⟩
  obtain ⟨steps, enough, alsoEnough⟩ := steps
  rw [runToEnd, run_eq_run (Nat.lt_succ_self _) enough] at success
  obtain ⟨further, finished, still⟩ :=
    follows_run steps options before other value after start success ends
  refine ⟨further, ?_, still⟩
  rw [runToEnd, run_eq_run (Nat.lt_succ_self _) alsoEnough]
  exact finished

theorem follows_nestedPickle (options : Options) :
    Decoding.Follows rest tail more depth (nestedPickle options)
      (nestedPickle options) :=
  follows_inside (follows_runToEnd (nestedOptions options))

end Execution

end PickleGraph
