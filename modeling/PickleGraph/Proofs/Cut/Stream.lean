import PickleGraph.Proofs.Cut.Machine
import PickleGraph.Proofs.Defect.Decode
import PickleGraph.Proofs.Machine.Depth

/-!
# Streams that end early and streams that go on

A pickle is decoded from the bytes that it takes and from no others: whatever
follows them, the same value is given and the same place is reached. A stream
that ends before this place is never accepted. It is reported as truncated, or
as an array payload that is corrupt if it ends within the bytes that are read
for a placeholder.
-/

namespace PickleGraph.Execution

open Actions

variable {options : Options} {more : Bytes} {length : Nat}

/-- A machine before the first pickle of a byte string. -/
def startAt (content : Bytes) (isRecorded : Bool) : Machine :=
  Machine.ofReader (.ofBytes content) .empty isRecorded

theorem prolongs_startAt (content more : Bytes) (isRecorded : Bool) :
    Machine.Prolongs more content.length 0 (startAt content isRecorded)
      (startAt (content ++ more) isRecorded) :=
  ⟨.bottom 0 none (Nat.zero_add _), rfl⟩

/-! ## Bytes that have been taken -/

/-- The bytes that the machine has taken and those that are left are all the
bytes of a file of the length. -/
def IsWhole (length : Nat) (machine : Machine) : Prop :=
  Machine.Prolongs [] length 0 machine machine

theorem isWhole_startAt (content : Bytes) (isRecorded : Bool) :
    IsWhole content.length (startAt content isRecorded) := by
  have prolongs := prolongs_startAt content [] isRecorded
  rwa [List.append_nil] at prolongs

theorem IsWhole.position_add {machine : Machine}
    (isWhole : IsWhole length machine) :
    machine.source.reader.position + machine.source.reader.unread.length =
      length :=
  isWhole.reader.position_add

/-- An action that succeeds loses no byte. -/
theorem IsWhole.of_ok {α : Type} {isCut : Failure → Prop}
    {action : Execution α} {machine after : Machine} {result : α}
    (isWhole : IsWhole length machine)
    (tracks : Tracks [] length 0 isCut action)
    (success : action machine = .ok result after) : IsWhole length after := by
  obtain ⟨further, again, still⟩ :=
    (tracks.alike machine machine isWhole).of_ok success
  cases success.symm.trans again
  exact still

/-! ## Bytes behind the pickle -/

/-- The bytes behind a pickle do not matter: with any others in their place the
machine gives the same value and ends in the same state, at the same place. -/
theorem load_append (options : Options) (isRecorded : Bool)
    {content : Bytes} {value : Value} {machine : Machine}
    (loaded : Machine.load options
      (Machine.ofReader (.ofBytes content) .empty isRecorded) =
        .ok value machine) (others : Bytes) :
    ∃ further,
      Machine.load options
          (Machine.ofReader
            (.ofBytes
              (content.take machine.source.reader.position ++ others))
            .empty isRecorded) =
        .ok value further ∧
      further.source.reader.position = machine.source.reader.position ∧
      further.source.reader.unread = others ∧
      further = { machine with
        source := ⟨further.source.reader, machine.heap⟩ } := by
  have loaded : runToEnd options (startAt content isRecorded) =
      .ok value machine := loaded
  have isWhole : IsWhole content.length machine :=
    (isWhole_startAt content isRecorded).of_ok (tracks_runToEnd options)
      loaded
  have tally := isWhole.position_add
  generalize isPlace : machine.source.reader.position = place at *
  have split : content.take place ++ content.drop place = content :=
    List.take_append_drop place content
  have length : (content.take place).length = place :=
    List.length_take_of_le (by omega)
  -- The part that ends at the place is decoded like the whole content.
  have ends : ∃ after,
      runToEnd options (startAt (content.take place) isRecorded) =
        .ok value after ∧
      Machine.Prolongs (content.drop place) place 0 after machine := by
    have start := prolongs_startAt (content.take place) (content.drop place)
      isRecorded
    rw [split, length] at start
    rcases ((tracks_runToEnd options).alike _ _ start).of_ok_whole loaded with
      ended | ⟨failure, after, failed, _, isPast⟩
    · exact ended
    · by_cases atEnd : content.drop place = []
      · rw [atEnd, List.append_nil] at split
        rw [split] at failed
        cases failed.symm.trans loaded
      · have shorter := isPast atEnd
        rw [List.length_drop] at shorter
        omega
  obtain ⟨after, finished, reached⟩ := ends
  have start := prolongs_startAt (content.take place) others isRecorded
  rw [length] at start
  obtain ⟨further, finishedAgain, still⟩ :=
    ((tracks_runToEnd options).alike _ _ start).of_ok finished
  have nothing : after.source.reader.unread = [] := by
    have tally := still.reader.position_add
    rw [reached.reader.position, isPlace] at tally
    exact List.eq_nil_of_length_eq_zero (by omega)
  refine ⟨further, finishedAgain, ?_, ?_, ?_⟩
  · rw [← still.reader.position, reached.reader.position, isPlace]
  · rw [still.reader.unread, nothing]
    rfl
  · rw [still.same, reached.same]
    rfl

/-- A registry of one type, `m.n`, whose array follows it in the stream. -/
def payloadType : Options where
  registry := ⟨[(⟨[0x6D], [0x6E]⟩, ⟨.array [0x74] .inline, 0⟩)]⟩

/-- A placeholder for an array of this type. -/
def payloadHead : Bytes :=
  [0x63, 0x6D, 0x0A, 0x6E, 0x0A, 0x29, 0x81]

/-- A state of two elements of one byte each. -/
def pairState : Bytes :=
  [0x7D, 0x28, 0x55, 5] ++ Bytes.ofString "dtype" ++ [0x55, 3] ++
    Bytes.ofString "|u1" ++ [0x55, 5] ++ Bytes.ofString "shape" ++
    [0x4B, 2, 0x85, 0x75]

/-- A pickle of an array of two elements, which are read from the stream. -/
def pairPickle : Bytes :=
  payloadHead ++ pairState ++ [0x62, 7, 9, 0x2E]

/-- The place up to which a stream has been read for an array. -/
def arrayEnd? : EStateM.Result Failure Machine Value → Option Nat
  | .ok value machine =>
      if (machine.heap.array? value).isSome then
        some machine.source.reader.position
      else
        none
  | .error _ _ => none

theorem eq_ok_of_arrayEnd? {place : Nat}
    {outcome : EStateM.Result Failure Machine Value}
    (ended : arrayEnd? outcome = some place) :
    ∃ value machine, outcome = .ok value machine ∧
      (machine.heap.array? value).isSome ∧
      machine.source.reader.position = place := by
  cases outcome with
  | ok value machine =>
      rw [arrayEnd?] at ended
      split at ended
      · next isArray =>
          injection ended with ended
          exact ⟨value, machine, rfl, isArray, ended⟩
      · cases ended
  | error failure machine => cases ended

theorem load_pairPickle :
    ∃ value machine,
      Machine.load payloadType
          (Machine.ofReader (.ofBytes (pairPickle ++ [0xFF])) .empty false) =
        .ok value machine ∧
      (machine.heap.array? value).isSome ∧
      machine.source.reader.position = 36 :=
  eq_ok_of_arrayEnd? (by decide +kernel)

/-- The pickle is decoded to the same array where another one follows it. -/
theorem load_append_pairPickle :
    ∃ value machine further,
      Machine.load payloadType
          (Machine.ofReader (.ofBytes (pairPickle ++ [0xFF])) .empty false) =
        .ok value machine ∧
      (machine.heap.array? value).isSome ∧
      Machine.load payloadType
          (Machine.ofReader
            (.ofBytes
              ((pairPickle ++ [0xFF]).take machine.source.reader.position ++
                pairPickle))
            .empty false) =
        .ok value further ∧
      further.source.reader.position = 36 ∧
      further.source.reader.unread = pairPickle := by
  obtain ⟨value, machine, loaded, isArray, place⟩ := load_pairPickle
  obtain ⟨further, again, samePlace, unread, _⟩ :=
    load_append payloadType false loaded pairPickle
  exact ⟨value, machine, further, loaded, isArray, again,
    samePlace.trans place, unread⟩

/-! ## Bytes of payloads -/

/-- An opcode that gives a state gets past the cut, so that the cut is within
the bytes that are read for a placeholder. -/
def CutsPayload (options : Options) (more : Bytes) (machine : Machine) :
    Prop :=
  ∃ opcodes last middle after,
    Completes options machine opcodes last ∧
      readOpcode last = .ok .build middle ∧
      perform options (nestedPickle options) .build middle =
        .ok none after ∧
      ¬ middle.IsPast more ∧ after.IsPast more

theorem isPast_perform {opcode : Opcode} {middle after : Machine}
    {result : Option Value} (isPast : middle.IsPast more)
    (performed : perform options (nestedPickle options) opcode middle =
      .ok result after) : after.IsPast more := by
  have moves : Moves Machine.ReadOn
      (perform options (nestedPickle options) opcode) :=
    readOn_perform (readOn_nestedPickle options) opcode
  have kept := moves middle
  rw [performed] at kept
  exact isPast.of_readOn kept

theorem isPast_readOpcode {opcode : Opcode} {machine middle : Machine}
    (isPast : machine.IsPast more)
    (read : readOpcode machine = .ok opcode middle) :
    middle.IsPast more := by
  have kept := readOn_readOpcode machine
  rw [read] at kept
  exact isPast.of_readOn kept

theorem Completes.isPast {machine last : Machine} {opcodes : List Opcode}
    (completes : Completes options machine opcodes last)
    (isPast : machine.IsPast more) : last.IsPast more := by
  induction completes with
  | nil machine => exact isPast
  | cons read performed _ inductionHypothesis =>
      exact inductionHypothesis
        (isPast_perform (isPast_readOpcode isPast read) performed)

/-- A payload that is cut lies ahead. -/
theorem not_cutsPayload_of_isPast {machine : Machine}
    (isPast : machine.IsPast more) :
    ¬ CutsPayload options more machine := by
  rintro ⟨opcodes, last, middle, after, completes, read, _, before, _⟩
  exact before (isPast_readOpcode (completes.isPast isPast) read)

/-- The payload that is cut is the one of the next opcode, or a later one. -/
theorem cutsPayload_iff {machine middle after : Machine} {opcode : Opcode}
    {result : Option Value}
    (read : readOpcode machine = .ok opcode middle)
    (performed : perform options (nestedPickle options) opcode middle =
      .ok result after) :
    CutsPayload options more machine ↔
      (opcode = .build ∧ ¬ middle.IsPast more ∧ after.IsPast more) ∨
        result = none ∧ CutsPayload options more after := by
  constructor
  · rintro ⟨opcodes, last, cut, further, completes, build, given, before,
      isPast⟩
    cases completes with
    | nil =>
        cases read.symm.trans build
        cases performed.symm.trans given
        exact .inl ⟨rfl, before, isPast⟩
    | cons readFirst performedFirst completes =>
        cases read.symm.trans readFirst
        cases performed.symm.trans performedFirst
        exact .inr ⟨rfl, _, last, cut, further, completes, build, given,
          before, isPast⟩
  · rintro (⟨rfl, before, isPast⟩ |
      ⟨rfl, opcodes, last, cut, further, completes, build, given, before,
        isPast⟩)
    · have isNone : result = none := by
        cases result with
        | none => rfl
        | some value =>
            obtain ⟨impossible, _⟩ := perform_eq_some_iff.mp performed
            cases impossible
      subst isNone
      exact ⟨[], machine, middle, after, .nil machine, read, performed,
        before, isPast⟩
    · exact ⟨_, last, cut, further, .cons read performed completes, build,
        given, before, isPast⟩

/-! ## Streams that end early -/

/-- A failure with a place that names the cut: it blames a payload exactly if a
payload is cut. -/
def NamesCut (cutsPayload : Prop) (failure : Failure) : Prop :=
  ∃ cause offset, failure = .defect cause (some offset) ∧
    (cause.failureClass = .truncatedStream ∧ ¬ cutsPayload ∨
      cause.failureClass = .corruptPayload ∧ cutsPayload)

theorem namesCut_locate {cutsPayload : Prop} {failure : Failure}
    (names : failure.IsOf .truncatedStream ∧ ¬ cutsPayload ∨
      failure.IsOf .corruptPayload ∧ cutsPayload) (offset : Nat) :
    NamesCut cutsPayload (failure.locate offset) := by
  cases failure with
  | defect cause place =>
      cases place with
      | none => exact ⟨cause, offset, rfl, names⟩
      | some place => exact ⟨cause, place, rfl, names⟩
  | refused refusal => exact (names.elim And.left And.left).elim
  | source fault => exact (names.elim And.left And.left).elim

/-- A step that is cut off ends the run. -/
theorem runToEnd_of_step_cut {machine stopped : Machine} {failure : Failure}
    (failed : step options (nestedPickle options) machine =
      .error failure stopped) {cutsPayload : Prop}
    (names : failure.IsOf .truncatedStream ∧ ¬ cutsPayload ∨
      failure.IsOf .corruptPayload ∧ cutsPayload) :
    ∃ failure after, runToEnd options machine = .error failure after ∧
      NamesCut cutsPayload failure := by
  have isBroken : failure.IsBroken := names.imp And.left And.left
  refine ⟨_, stopped, ?_, namesCut_locate names stopped.offset⟩
  rw [runToEnd_eq]
  exact bind_of_eq_error (placed_of_isBroken failed isBroken)

/-- Where the whole file is decoded beyond the cut, the part is not decoded. -/
theorem runToEnd_of_cut (some_ : more ≠ []) {part whole last : Machine}
    {value : Value} (start : Machine.Prolongs more length 0 part whole)
    (finished : runToEnd options whole = .ok value last)
    (isPast : last.IsPast more) :
    ∃ failure after, runToEnd options part = .error failure after ∧
      NamesCut (CutsPayload options more whole) failure := by
  induction size : whole.size using Nat.strongRecOn
    generalizing part whole with
  | ind size inductionHypothesis =>
  rw [runToEnd_eq] at finished
  obtain ⟨result, after, stepped, rest⟩ := bind_eq_ok_iff.mp finished
  have stepped := placed_eq_ok_iff.mp stepped
  have smaller := size_step (readOn_nestedPickle options) stepped
  rw [step_eq] at stepped
  obtain ⟨opcode, middle, read, performed⟩ := bind_eq_ok_iff.mp stepped
  have cuts : CutsPayload options more whole ↔ _ :=
    cutsPayload_iff read performed
  rcases (tracks_readOpcode.alike part whole start).of_ok_whole read with
    ⟨partMiddle, partRead, stillRead⟩ |
      ⟨failure, stopped, failed, isCut, past⟩
  · rcases ((tracks_perform (tracks_nestedPickle options) opcode).alike _ _
        stillRead).of_ok_whole performed with
      ⟨partAfter, partPerformed, still⟩ |
        ⟨failure, stopped, failed, isCut, past⟩
    · cases result with
      | some value =>
          cases rest
          exact absurd isPast (still.reader.not_isPast some_)
      | none =>
          have proceeds : runToEnd options part =
              runToEnd options partAfter := by
            refine runToEnd_of_step ?_
            rw [step_eq, bind_of_eq_ok partRead]
            exact partPerformed
          obtain ⟨failure, stopped, failed, names⟩ :=
            inductionHypothesis after.size (size ▸ smaller) still rest rfl
          refine ⟨failure, stopped, proceeds.trans failed, ?_⟩
          have later : CutsPayload options more whole ↔
              CutsPayload options more after := by
            have ahead : ¬ after.IsPast more :=
              still.reader.not_isPast some_
            rw [cuts]
            simp [ahead]
          rwa [propext later]
    · have partFailed : step options (nestedPickle options) part =
          .error failure stopped := by
        rw [step_eq, bind_of_eq_ok partRead]
        exact failed
      refine runToEnd_of_step_cut partFailed ?_
      have ahead : ¬ middle.IsPast more := stillRead.reader.not_isPast some_
      have behind : ¬ CutsPayload options more after :=
        not_cutsPayload_of_isPast past
      rw [cuts]
      by_cases isBuild : opcode = .build
      · subst isBuild
        exact .inr ⟨isCut, .inl ⟨rfl, ahead, past⟩⟩
      · rw [Opcode.cutClass_of_ne isBuild] at isCut
        refine .inl ⟨isCut, ?_⟩
        rintro (⟨impossible, _⟩ | ⟨_, impossible⟩)
        · exact isBuild impossible
        · exact behind impossible
  · have partFailed : step options (nestedPickle options) part =
        .error failure stopped := by
      rw [step_eq]
      exact bind_of_eq_error failed
    refine runToEnd_of_step_cut partFailed (.inl ⟨isCut, ?_⟩)
    rw [cuts]
    rintro (⟨_, ahead, _⟩ | ⟨_, cutsLater⟩)
    · exact ahead past
    · exact not_cutsPayload_of_isPast (isPast_perform past performed)
        cutsLater

theorem drop_ne_nil {content : Bytes} {count : Nat}
    (short : count < content.length) : content.drop count ≠ [] :=
  fun empty => Nat.not_le_of_lt short (List.drop_eq_nil_iff.mp empty)

/-- Bytes are past the cut exactly if it is before the place that has been
reached. -/
theorem IsWhole.isPast_iff {content : Bytes} {count : Nat}
    {machine : Machine} (isWhole : IsWhole content.length machine)
    (short : count < content.length) :
    machine.IsPast (content.drop count) ↔
      count < machine.source.reader.position := by
  have tally := isWhole.position_add
  have some_ : content.drop count ≠ [] := drop_ne_nil short
  constructor
  · intro isPast
    have shorter := isPast some_
    rw [List.length_drop] at shorter
    omega
  · intro behind _
    rw [List.length_drop]
    omega

theorem IsWhole.completes {machine last : Machine} {opcodes : List Opcode}
    (isWhole : IsWhole length machine)
    (completes : Completes options machine opcodes last) :
    IsWhole length last := by
  induction completes with
  | nil machine => exact isWhole
  | cons read performed _ inductionHypothesis =>
      exact inductionHypothesis
        ((isWhole.of_ok tracks_readOpcode read).of_ok
          (tracks_perform (tracks_nestedPickle options) _) performed)

/-- The place is within the bytes that are read from the stream when an
instruction gives a state to a placeholder. -/
def IsPayloadAt (options : Options) (machine : Machine) (place : Nat) :
    Prop :=
  ∃ opcodes last middle after,
    Completes options machine opcodes last ∧
      readOpcode last = .ok .build middle ∧
      perform options (nestedPickle options) .build middle =
        .ok none after ∧
      middle.source.reader.position ≤ place ∧
      place < after.source.reader.position

theorem cutsPayload_iff_isPayloadAt {content : Bytes} {count : Nat}
    {machine : Machine} (isWhole : IsWhole content.length machine)
    (short : count < content.length) :
    CutsPayload options (content.drop count) machine ↔
      IsPayloadAt options machine count := by
  refine exists_congr fun opcodes => exists_congr fun last =>
    exists_congr fun middle => exists_congr fun after =>
      and_congr_right fun completes => and_congr_right fun read =>
        and_congr_right fun performed => ?_
  have middleWhole : IsWhole content.length middle :=
    (isWhole.completes completes).of_ok tracks_readOpcode read
  have afterWhole : IsWhole content.length after :=
    middleWhole.of_ok (tracks_perform (tracks_nestedPickle options) _)
      performed
  rw [middleWhole.isPast_iff short, afterWhole.isPast_iff short,
    Nat.not_lt]

/-- A stream that ends before the pickle does is reported as such: as an array
payload that is corrupt if it ends where such a payload is read, and as
truncated otherwise. -/
theorem load_take (options : Options) (isRecorded : Bool)
    {content : Bytes} {value : Value} {machine : Machine}
    (loaded : Machine.load options
      (Machine.ofReader (.ofBytes content) .empty isRecorded) =
        .ok value machine)
    {count : Nat} (short : count < machine.source.reader.position) :
    ∃ cause offset after,
      Machine.load options
          (Machine.ofReader (.ofBytes (content.take count)) .empty
            isRecorded) =
        .error (.defect cause (some offset)) after ∧
      (cause.failureClass = .truncatedStream ∧
          ¬ IsPayloadAt options
            (Machine.ofReader (.ofBytes content) .empty isRecorded) count ∨
        cause.failureClass = .corruptPayload ∧
          IsPayloadAt options
            (Machine.ofReader (.ofBytes content) .empty isRecorded)
            count) := by
  have loaded : runToEnd options (startAt content isRecorded) =
      .ok value machine := loaded
  have isWhole := isWhole_startAt content isRecorded
  have finished : IsWhole content.length machine :=
    isWhole.of_ok (tracks_runToEnd options) loaded
  have inside : count < content.length := by
    have tally := finished.position_add
    omega
  have length : (content.take count).length = count :=
    List.length_take_of_le (by omega)
  have start := prolongs_startAt (content.take count) (content.drop count)
    isRecorded
  rw [List.take_append_drop, length] at start
  obtain ⟨failure, after, failed, cause, offset, rfl, names⟩ :=
    runToEnd_of_cut (drop_ne_nil inside) start loaded
      ((finished.isPast_iff inside).mpr short)
  rw [cutsPayload_iff_isPayloadAt isWhole inside] at names
  exact ⟨cause, offset, after, failed, names⟩

/-- The bytes of the array are cut after the first one. -/
theorem load_take_pairPickle :
    ∃ value machine,
      Machine.load payloadType
          (Machine.ofReader (.ofBytes (pairPickle ++ [0xFF])) .empty false) =
        .ok value machine ∧
      34 < machine.source.reader.position ∧
      ∃ cause offset after,
        Machine.load payloadType
            (Machine.ofReader
              (.ofBytes ((pairPickle ++ [0xFF]).take 34)) .empty false) =
          .error (.defect cause (some offset)) after ∧
        cause.failureClass = .corruptPayload ∧
        IsPayloadAt payloadType
          (Machine.ofReader (.ofBytes (pairPickle ++ [0xFF])) .empty false)
          34 := by
  have isCorrupt : failureClass?
      (payloadType.decode ((pairPickle ++ [0xFF]).take 34)) =
        some .corruptPayload := by
    decide +kernel
  obtain ⟨value, machine, loaded, _, place⟩ := load_pairPickle
  have short : 34 < machine.source.reader.position := by
    rw [place]
    decide
  obtain ⟨cause, offset, after, failed, named⟩ :=
    load_take payloadType false loaded short
  rw [Options.decode, Options.decodeReader, failed] at isCorrupt
  injection isCorrupt with isCorrupt
  rcases named with ⟨isTruncated, _⟩ | ⟨_, isPayload⟩
  · cases isTruncated.symm.trans isCorrupt
  · exact ⟨value, machine, loaded, short, cause, offset, after, failed,
      isCorrupt, isPayload⟩

end PickleGraph.Execution
