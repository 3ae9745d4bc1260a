import PickleGraph.Proofs.Cut.Decoding
import PickleGraph.Proofs.Framing.Machine

/-!
# Machines on a part of a file

A machine on a part of a file executes what one on the whole file executes, with
the same effects, until the part ends. So do the machines of the pickles inside.
-/

namespace PickleGraph

open Actions

/-- Machines on a part of a file and on the whole file that are the same but for
their readers. -/
structure Machine.Prolongs (more : Bytes) (length depth : Nat)
    (part whole : Machine) : Prop where
  reader : Reader.Prolongs more length depth part.source.reader
    whole.source.reader
  same : whole =
    { part with source := ⟨whole.source.reader, part.source.heap⟩ }

theorem Machine.Prolongs.offset {more : Bytes} {length depth : Nat}
    {part whole : Machine}
    (prolongs : Machine.Prolongs more length depth part whole) :
    part.offset = whole.offset := by
  rw [prolongs.same]

/-- The machine has got into the bytes that follow the part. -/
def Machine.IsPast (more : Bytes) (machine : Machine) : Prop :=
  machine.source.IsPast more

/-- What a cut within the argument or the effect of an opcode is blamed on. -/
def Opcode.cutClass (opcode : Opcode) : FailureClass :=
  if opcode = .build then .corruptPayload else .truncatedStream

theorem Opcode.cutClass_of_ne {opcode : Opcode} (other : opcode ≠ .build) :
    opcode.cutClass = .truncatedStream :=
  if_neg other

theorem Failure.isBroken_of_cutClass {opcode : Opcode} {failure : Failure}
    (isCut : failure.IsOf opcode.cutClass) : failure.IsBroken := by
  by_cases isBuild : opcode = .build
  · subst isBuild
    exact .inr isCut
  · rw [Opcode.cutClass_of_ne isBuild] at isCut
    exact .inl isCut

namespace Execution

/-- The action does on a part of a file what it does on the whole file, until
the part ends. -/
abbrev Tracks {α : Type} (more : Bytes) (length depth : Nat)
    (isCut : Failure → Prop) (action : Execution α) : Prop :=
  Shadows (Machine.Prolongs more length depth) isCut (Machine.IsPast more)
    action

variable {more : Bytes} {length depth : Nat} {isCut : Failure → Prop}
variable {α : Type}

theorem keeps_of_readOn {action : Execution α}
    (moves : Moves Machine.ReadOn action) :
    Moves (Keeps (Machine.IsPast more)) action :=
  moves.mono fun _ _ readOn isPast => isPast.of_readOn readOn

/-! ## Parts of instructions -/

theorem prolongs_standingAt {part whole after : Machine}
    (start : Machine.Prolongs more length depth part whole)
    (stays : after = after.standingAt part) :
    Machine.Prolongs more length depth after (after.standingAt whole) := by
  have same := start.same
  constructor
  · rw [stays]
    exact start.reader
  · rw [stays, same]
    rfl

/-- A stationary action does not read. -/
theorem Stationary.tracks {action : Execution α}
    (stationary : Stationary action) :
    Tracks more length depth isCut action := by
  refine ⟨fun part whole start => ?_, keeps_of_readOn stationary.readOn⟩
  have atWhole : part.standingAt whole = whole := by
    rw [start.same]
    rfl
  have moved := stationary part whole
  have stays := stationary part part
  rw [atWhole] at moved
  rw [Machine.standingAt_self] at stays
  cases outcome : action part with
  | ok result after =>
      rw [outcome] at moved stays
      rw [moved]
      injection stays with _ stays
      exact .ok result (prolongs_standingAt start stays)
  | error failure after =>
      rw [outcome] at moved stays
      rw [moved]
      injection stays with _ stays
      exact .error failure (prolongs_standingAt start stays)

theorem tracks_decoding {action : Decoding α}
    (tracks : Decoding.Tracks more length depth isCut action) :
    Tracks more length depth isCut (decoding action) := by
  refine ⟨fun part whole start => ?_, keeps_decoding tracks.keeps⟩
  have sources : Source.Prolongs more length depth part.source
      whole.source :=
    ⟨start.reader, by rw [start.same]⟩
  have alike := tracks.alike part.source whole.source sources
  have joins : ∀ {source further : Source},
      Source.Prolongs more length depth source further →
      Machine.Prolongs more length depth { part with source }
        { whole with source := further } := by
    intro source further still
    refine ⟨still.reader, ?_⟩
    rw [start.same, still.heap]
  unfold decoding
  generalize action part.source = partEnd at alike
  generalize action whole.source = wholeEnd at alike
  cases alike with
  | ok result still => exact .ok result (joins still)
  | error failure still => exact .error failure (joins still)
  | cut after isCut isPast =>
      cases wholeEnd with
      | ok result further => exact .cut _ isCut isPast
      | error failure further => exact .cut _ isCut isPast

theorem isOf_missingOpcode (offset : Nat) {failure : Failure}
    (isCut : failure.IsOf .truncatedStream) :
    (missingOpcode offset failure).IsOf .truncatedStream := by
  cases failure with
  | defect cause place =>
      have truncated : cause.failureClass = .truncatedStream := isCut
      rw [missingOpcode, if_pos truncated]
      rfl
  | refused refusal => cases isCut
  | source fault => cases isCut

/-- Reads an opcode whose place is known. -/
def opcodeAt (offset : Nat) : Execution Opcode := do
  let code ← decoding
    (Decoding.mapFailure (missingOpcode offset) (Decoding.read 1))
  let code := code.headD 0
  match Opcode.ofCode? code with
  | some opcode => return opcode
  | none => throw (.defect (.unknownOpcode code) (some offset))

theorem readOpcode_eq (machine : Machine) :
    readOpcode machine =
      opcodeAt (machine.source.reader.tell?.getD 0)
        { machine with offset := machine.source.reader.tell?.getD 0 } :=
  rfl

theorem tracks_opcodeAt (offset : Nat) :
    Tracks more length depth (Failure.IsOf .truncatedStream)
      (opcodeAt offset) := by
  refine .bind (tracks_decoding (.mapFailure (.read 1)
    fun _ => isOf_missingOpcode offset)) fun code => ?_
  dsimp only
  split
  · exact .pure _
  · exact .throw _

theorem tracks_readOpcode :
    Tracks more length depth (Failure.IsOf .truncatedStream) readOpcode := by
  refine ⟨fun part whole start => ?_, keeps_of_readOn readOn_readOpcode⟩
  rw [readOpcode_eq, readOpcode_eq, start.reader.tell?]
  refine (tracks_opcodeAt _).alike _ _ ⟨start.reader, ?_⟩
  exact congrArg (fun machine : Machine =>
    { machine with offset := whole.source.reader.tell?.getD 0 }) start.same

theorem tracks_record (opcode : Opcode) :
    Tracks more length depth isCut
      (modify (·.record opcode) : Execution Unit) := by
  refine ⟨fun part whole start => .ok () ⟨start.reader, ?_⟩,
    fun _ isPast => isPast⟩
  rw [start.same]
  rfl

/-! ## Instructions -/

section Steps

variable {options : Options} {nested : Decoding Value}
variable
  (nestedTracks : Decoding.Tracks more length depth Failure.IsBroken nested)

include nestedTracks

theorem tracks_fillPlaceholder (address : Address) (record : Record) :
    Tracks more length depth (Failure.IsOf .corruptPayload)
      (fillPlaceholder options nested address record) := by
  unfold fillPlaceholder
  split
  · exact .bind (tracks_decoding
      (Payload.tracks_materialize options _ record nestedTracks))
      fun array => (Stationary.putArray address array).tracks
  · exact .pure _

/-- Only a frame and a payload can be cut off while an instruction is
executed. -/
theorem tracks_execute {opcode : Opcode} {instruction : Instruction}
    (suits : Instruction.Suits opcode instruction) :
    Tracks more length depth (Failure.IsOf opcode.cutClass)
      (execute options nested instruction) := by
  by_cases isFrame : ∃ size, instruction = .frame size
  · obtain ⟨size, rfl⟩ := isFrame
    obtain rfl : opcode = .frame := suits
    exact .bind (tracks_decoding (.openFrame size)) fun _ => .pure _
  by_cases isBuild : instruction = .build
  · subst isBuild
    obtain rfl : opcode = .build := suits
    refine .bind ?_ fun _ => .pure _
    rw [giveState_eq]
    exact .bind Stationary.applyToTop.tracks fun target =>
      tracks_fillPlaceholder nestedTracks _ _
  · exact (stationary_execute options nested instruction
      (fun size same => isFrame ⟨size, same⟩) isBuild).tracks

theorem tracks_perform (opcode : Opcode) :
    Tracks more length depth (Failure.IsOf opcode.cutClass)
      (perform options nested opcode) := by
  have argument : Tracks more length depth (Failure.IsOf opcode.cutClass)
      (decoding (Instruction.ofOpcode options.rules opcode)) := by
    by_cases isBuild : opcode = .build
    · subst isBuild
      exact tracks_decoding (.pure _)
    · rw [Opcode.cutClass_of_ne isBuild]
      exact tracks_decoding
        (Instruction.direct_ofOpcode options.rules opcode).tracks
  have suits : Returns (Instruction.Suits opcode)
      (decoding (Instruction.ofOpcode options.rules opcode)) := by
    intro machine instruction after success
    obtain ⟨source, argued, _⟩ := decoding_eq_ok_iff.mp success
    exact Instruction.suits_ofOpcode options.rules opcode _ _ _ argued
  refine .bind_of_returns argument suits fun instruction suits => ?_
  refine .bind (tracks_execute nestedTracks suits) fun result => ?_
  dsimp only
  split
  · exact .bind (tracks_record opcode) fun _ => .pure _
  · exact .pure _

theorem tracks_step :
    Tracks more length depth Failure.IsBroken (step options nested) :=
  .bind (tracks_readOpcode.mono fun _ => .inl) fun opcode =>
    (tracks_perform nestedTracks opcode).mono
      fun _ => Failure.isBroken_of_cutClass

end Steps

/-! ## Pickles inside -/

/-- A defect is placed at the opcode, whatever it is. -/
theorem isOf_locate {kind : FailureClass} {failure : Failure}
    (isOf : failure.IsOf kind) (offset : Nat) :
    (failure.locate offset).IsOf kind := by
  cases failure with
  | defect cause place => cases place <;> exact isOf
  | refused refusal => cases isOf
  | source fault => cases isOf

theorem isBroken_locate {failure : Failure} (isBroken : failure.IsBroken)
    (offset : Nat) : (failure.locate offset).IsBroken :=
  isBroken.imp (isOf_locate · offset) (isOf_locate · offset)

theorem placed_of_isBroken {action : Execution α} {machine after : Machine}
    {failure : Failure} (failed : action machine = .error failure after)
    (isBroken : failure.IsBroken) :
    placed action machine = .error (failure.locate after.offset) after := by
  unfold placed
  rw [failed]
  cases failure with
  | source fault => exact isBroken.elim False.elim False.elim
  | defect cause place => rfl
  | refused refusal => rfl

theorem tracks_placed {action : Execution α}
    (tracks : Tracks more length depth Failure.IsBroken action) :
    Tracks more length depth Failure.IsBroken (placed action) := by
  refine ⟨fun part whole start => ?_, fun machine isPast => ?_⟩
  · have alike := tracks.alike part whole start
    generalize ended : action part = partEnd at alike
    generalize endedWhole : action whole = wholeEnd at alike
    cases alike with
    | ok result still =>
        rw [placed_eq_ok_iff.mpr ended, placed_eq_ok_iff.mpr endedWhole]
        exact .ok result still
    | error failure still =>
        unfold placed
        rw [ended, endedWhole]
        dsimp only
        rw [still.offset]
        exact .error _ still
    | cut after isBroken isPast =>
        rw [placed_of_isBroken ended isBroken]
        refine .cut after (isBroken_locate isBroken _) ?_
        unfold placed
        rw [endedWhole]
        cases wholeEnd with
        | ok result further => exact isPast
        | error failure further => exact isPast
  · have kept := tracks.keeps machine isPast
    unfold placed
    split <;> next outcome =>
      rw [outcome] at kept
      exact kept

/-- A pickle inside is read through one more reader. -/
theorem tracks_inside {action : Execution Value}
    (tracks : Tracks more length (depth + 1) Failure.IsBroken action)
    (moves : Moves Machine.ReadOn action) :
    Decoding.Tracks more length depth Failure.IsBroken (inside action) := by
  refine ⟨fun part whole start => ?_,
    Decoding.keeps_of_readOn (readOn_inside moves)⟩
  have starts : Machine.Prolongs more length (depth + 1)
      (Machine.ofReader part.reader part.heap false)
      (Machine.ofReader whole.reader whole.heap false) :=
    ⟨.inner 0 none start.reader, by rw [start.heap]; rfl⟩
  have leaves : ∀ {after further : Machine},
      Machine.Prolongs more length (depth + 1) after further →
      Source.Prolongs more length depth
        ⟨after.source.reader.beneath, after.heap⟩
        ⟨further.source.reader.beneath, further.heap⟩ := by
    intro after further still
    have reader := still.reader
    constructor
    · generalize after.source.reader = last at reader
      generalize further.source.reader = other at reader
      cases reader with
      | inner position frame below => exact below
    · rw [still.same]
      rfl
  have alike := tracks.alike _ _ starts
  unfold inside
  generalize action (Machine.ofReader part.reader part.heap false) =
    partEnd at alike
  generalize action (Machine.ofReader whole.reader whole.heap false) =
    wholeEnd at alike
  cases alike with
  | ok value still => exact .ok value (leaves still)
  | error failure still => exact .error failure (leaves still)
  | cut after isBroken isPast =>
      refine .cut _ isBroken ?_
      cases wholeEnd with
      | ok value further =>
          intro some_
          have isPast := isPast some_
          rwa [← unread_beneath] at isPast
      | error failure further =>
          intro some_
          have isPast := isPast some_
          rwa [← unread_beneath] at isPast

theorem tracks_run (steps : Nat) (options : Options) :
    Tracks more length depth Failure.IsBroken (run steps options) := by
  induction steps generalizing options depth with
  | zero => exact tracks_placed (.throw _)
  | succ steps inductionHypothesis =>
      rw [run_succ]
      refine .bind (tracks_placed (tracks_step
        (tracks_inside (inductionHypothesis _) (readOn_run steps _))))
        fun result => ?_
      cases result with
      | some value => exact .pure value
      | none => exact inductionHypothesis options

/-- The part may have a lower bound on the steps of a run than the whole. -/
theorem tracks_runToEnd (options : Options) :
    Tracks more length depth Failure.IsBroken (runToEnd options) := by
  refine ⟨fun part whole start => ?_, keeps_of_readOn (readOn_runToEnd _)⟩
  obtain ⟨steps, enough, alsoEnough⟩ :
      ∃ steps, part.size < steps ∧ whole.size < steps :=
    ⟨part.size + whole.size + 1, by omega, by omega⟩
  rw [runToEnd, runToEnd, run_eq_run (Nat.lt_succ_self _) enough,
    run_eq_run (Nat.lt_succ_self _) alsoEnough]
  exact (tracks_run steps options).alike part whole start

theorem tracks_nestedPickle (options : Options) :
    Decoding.Tracks more length depth Failure.IsBroken
      (nestedPickle options) :=
  tracks_inside (tracks_runToEnd _) (readOn_runToEnd _)

end Execution

end PickleGraph
