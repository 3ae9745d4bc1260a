import PickleGraph.Proofs.Cut.Machine
import PickleGraph.Proofs.Framing.Requests
import PickleGraph.Proofs.Framing.Stream
import PickleGraph.Proofs.Framing.Upkeep
import PickleGraph.Proofs.Machine.Depth

/-!
# Where opcodes are seen

A machine on a byte string shows every opcode at the place of its byte, and the
places only grow, whatever frames and payloads lie between them.
-/

namespace PickleGraph

open Actions

/-! ## Readers of a byte string -/

namespace Reader

variable {content given : Bytes} {reader : Reader}

/-- An unframer on the byte string, wherever it stands. -/
def IsWithin (content : Bytes) (reader : Reader) : Prop :=
  ∃ given, HasGiven content given reader

theorem isKept_isWithin (content : Bytes) : IsKept (IsWithin content) where
  read := by
    rintro reader after count data ⟨given, hasGiven⟩ success
    exact ⟨_, (hasGiven.read success).2⟩
  readLine := by
    rintro reader after data ⟨given, hasGiven⟩ success
    exact ⟨_, (hasGiven.readLine success).2⟩

theorem opensOver_isWithin (content : Bytes) :
    OpensOver (IsWithin content) 0 := by
  rintro reader after size ⟨given, hasGiven⟩ success
  exact ⟨given, hasGiven.openFrame success⟩

theorem HasGiven.length_add (hasGiven : HasGiven content given reader) :
    given.length + reader.remaining = content.length := by
  obtain ⟨rest, whole, length⟩ := hasGiven.exists_rest
  rw [← whole, List.length_append, length]

/-- Without its frame an unframer has given up what the frame held. -/
theorem HasGiven.dropFrame (hasGiven : HasGiven content given reader) :
    ∃ lost, HasGiven content (given ++ lost) reader.dropFrame := by
  cases hasGiven with
  | bare offset whole =>
      refine ⟨[], ?_⟩
      rw [List.append_nil]
      exact .bare offset whole
  | framed offset whole tell =>
      refine ⟨_, bare_of_eq offset ?_ List.length_append⟩
      rw [List.append_assoc]
      exact whole

end Reader

/-! ## Moments -/

/-- The moments, latest first, were seen at places before this one, each at the
byte of its opcode and each further on than the ones before it. -/
structure IsTrace (content : Bytes) (place : Nat) (moments : List Moment) :
    Prop where
  ordered : moments.Pairwise fun later earlier =>
    earlier.offset < later.offset
  earlier : ∀ moment ∈ moments, moment.offset < place
  coded : ∀ moment ∈ moments,
    content[moment.offset]? = some moment.opcode.code

namespace IsTrace

variable {content : Bytes} {place further : Nat} {moments : List Moment}

theorem nil (content : Bytes) (place : Nat) : IsTrace content place [] where
  ordered := .nil
  earlier := nofun
  coded := nofun

theorem mono (isTrace : IsTrace content place moments)
    (later : place ≤ further) : IsTrace content further moments where
  ordered := isTrace.ordered
  earlier moment member :=
    Nat.lt_of_lt_of_le (isTrace.earlier moment member) later
  coded := isTrace.coded

theorem cons (isTrace : IsTrace content place moments) {moment : Moment}
    (here : moment.offset = place)
    (isCode : content[place]? = some moment.opcode.code)
    (later : place < further) :
    IsTrace content further (moment :: moments) where
  ordered := by
    refine .cons (fun earlier member => ?_) isTrace.ordered
    rw [here]
    exact isTrace.earlier earlier member
  earlier := by
    intro other member
    rcases List.mem_cons.mp member with rfl | member
    · exact here ▸ later
    · exact Nat.lt_trans (isTrace.earlier other member) later
  coded := by
    intro other member
    rcases List.mem_cons.mp member with rfl | member
    · exact here ▸ isCode
    · exact isTrace.coded other member

end IsTrace

/-! ## What is recorded -/

namespace Machine

/-- A machine at the same opcode that has seen the same. -/
structure SameMoment (before after : Machine) : Prop where
  offset : after.offset = before.offset
  history : after.history? = before.history?

instance : IsPreorder Machine SameMoment where
  refl _ := ⟨rfl, rfl⟩
  trans _ _ _ first second :=
    ⟨second.offset.trans first.offset, second.history.trans first.history⟩

end Machine

namespace Execution

open Machine (SameMoment)

variable {α : Type} {options : Options} {nested : Decoding Value}

theorem sameMoment_decoding (action : Decoding α) :
    Moves SameMoment (decoding action) := by
  intro machine
  unfold decoding
  split <;> exact ⟨rfl, rfl⟩

theorem Stationary.sameMoment {action : Execution α}
    (stationary : Stationary action) : Moves SameMoment action := by
  intro machine
  have same := stationary machine machine
  rw [Machine.standingAt_self] at same
  cases outcome : action machine with
  | ok result after =>
      rw [outcome] at same
      injection same with _ same
      show SameMoment machine after
      rw [same]
      exact ⟨rfl, rfl⟩
  | error failure after =>
      rw [outcome] at same
      injection same with _ same
      show SameMoment machine after
      rw [same]
      exact ⟨rfl, rfl⟩

theorem sameMoment_fillPlaceholder (address : Address) (record : Record) :
    Moves SameMoment (fillPlaceholder options nested address record) := by
  unfold fillPlaceholder
  split
  · exact .bind (sameMoment_decoding _) fun array =>
      (Stationary.putArray address array).sameMoment
  · exact .pure _

theorem sameMoment_execute (instruction : Instruction) :
    Moves SameMoment (execute options nested instruction) := by
  by_cases isFrame : ∃ size, instruction = .frame size
  · obtain ⟨size, rfl⟩ := isFrame
    exact .bind (sameMoment_decoding _) fun _ => .pure _
  by_cases isBuild : instruction = .build
  · subst isBuild
    refine .bind ?_ fun _ => .pure _
    rw [giveState_eq]
    exact .bind Stationary.applyToTop.sameMoment fun target =>
      sameMoment_fillPlaceholder _ _
  · exact (stationary_execute options nested instruction
      (fun size same => isFrame ⟨size, same⟩) isBuild).sameMoment

/-- What a step leaves recorded besides what was recorded before. -/
inductive Records (opcode : Opcode) (before : Machine) :
    EStateM.Result Failure Machine (Option Value) → Prop
  | seen (moment : Moment) {after : Machine} :
      moment.opcode = opcode → moment.offset = before.offset →
      after.history? = before.history?.map (moment :: ·) →
      Records opcode before (.ok none after)
  | last {value : Value} {after : Machine} :
      after.history? = before.history? →
      Records opcode before (.ok (some value) after)
  | failed {failure : Failure} {after : Machine} :
      after.history? = before.history? →
      Records opcode before (.error failure after)

theorem records_perform (opcode : Opcode) (middle : Machine) :
    Records opcode middle (perform options nested opcode middle) := by
  have argued :
      SameMoment middle (finalState
        (decoding (Instruction.ofOpcode options.rules opcode) middle)) :=
    sameMoment_decoding _ middle
  unfold perform
  cases parsed :
      decoding (Instruction.ofOpcode options.rules opcode) middle with
  | error failure after =>
      rw [parsed] at argued
      rw [bind_of_eq_error parsed]
      exact .failed argued.history
  | ok instruction further =>
      rw [parsed] at argued
      rw [bind_of_eq_ok parsed]
      have moves : Moves SameMoment (execute options nested instruction) :=
        sameMoment_execute instruction
      have moved := trans_of SameMoment argued (moves further)
      cases executed : execute options nested instruction further with
      | error failure after =>
          rw [executed] at moved
          rw [bind_of_eq_error executed]
          exact .failed moved.history
      | ok result last =>
          rw [executed] at moved
          rw [bind_of_eq_ok executed]
          cases result with
          | some value => exact .last moved.history
          | none =>
              refine .seen (last.moment opcode) rfl moved.offset ?_
              exact congrArg (Option.map (last.moment opcode :: ·))
                moved.history

end Execution

/-! ## The trace of a machine -/

/-- The machine stands in the byte string, and what it has recorded was seen
before. -/
def Machine.IsTraced (content : Bytes) (machine : Machine) : Prop :=
  ∃ given, machine.source.reader.HasGiven content given ∧
    IsTrace content given.length (machine.history?.getD [])

/-- What the machine has recorded was seen in the byte string. -/
def Machine.HasTraced (content : Bytes) (machine : Machine) : Prop :=
  ∃ place, IsTrace content place (machine.history?.getD [])

namespace Execution

open Machine (SameMoment)

variable {content : Bytes} {options : Options}
variable {machine middle after : Machine} {opcode : Opcode}

/-- An opcode is read from the place that the machine notes. -/
theorem readOpcode_isTraced {given : Bytes}
    (hasGiven : machine.source.reader.HasGiven content given)
    (read : readOpcode machine = .ok opcode middle) :
    middle.offset = given.length ∧
      content[given.length]? = some opcode.code ∧
      middle.history? = machine.history? ∧
      middle.source.reader.HasGiven content (given ++ [opcode.code]) := by
  obtain ⟨data, source, decoded, known, rfl⟩ := readOpcode_eq_ok_iff.mp read
  obtain ⟨reader, handed, rfl⟩ := Decoding.reading_eq_ok_iff.mp decoded
  obtain ⟨length, readerGiven⟩ := hasGiven.read handed
  obtain ⟨code, rfl⟩ := List.length_eq_one_iff.mp length
  have isCode : code = opcode.code := code_of_ofCode? known
  subst isCode
  refine ⟨?_, ?_, rfl, readerGiven⟩
  · show machine.source.reader.tell?.getD 0 = _
    rw [hasGiven.tell?]
    rfl
  · obtain ⟨rest, whole, _⟩ := readerGiven.exists_rest
    rw [← whole, List.append_assoc, List.getElem?_append_right (Nat.le_refl _),
      Nat.sub_self]
    rfl

/-- The rest of an opcode leaves the machine in the byte string, further on. -/
theorem exists_given_of_perform {given : Bytes} {result : Option Value}
    (hasGiven : middle.source.reader.HasGiven content given)
    (performed : perform options (nestedPickle options) opcode middle =
      .ok result after) :
    ∃ more, after.source.reader.HasGiven content more ∧
      given.length ≤ more.length := by
  have stays : StaysOver (Reader.IsWithin content) 0
      (perform options (nestedPickle options) opcode) :=
    staysOver_perform (Reader.isKept_isWithin content)
      (staysOver_nestedPickle (Reader.isKept_isWithin content) options)
      fun _ => Reader.opensOver_isWithin content
  obtain ⟨more, moreGiven⟩ := stays.of_ok ⟨given, hasGiven⟩ performed
  have moves : Moves Machine.ReadOn
      (perform options (nestedPickle options) opcode) :=
    readOn_perform (readOn_nestedPickle options) opcode
  have moved := moves middle
  rw [performed] at moved
  have less : after.source.reader.remaining + 0 ≤
      middle.source.reader.remaining := moved.remaining
  have before := hasGiven.length_add
  have behind := moreGiven.length_add
  exact ⟨more, moreGiven, by omega⟩

/-- A step adds one moment to the trace, at the byte of its opcode. -/
theorem isTraced_step {result : Option Value}
    (isTraced : machine.IsTraced content)
    (stepped : step options (nestedPickle options) machine =
      .ok result after) : after.IsTraced content := by
  obtain ⟨given, hasGiven, isTrace⟩ := isTraced
  rw [step_eq] at stepped
  obtain ⟨opcode, middle, read, performed⟩ := bind_eq_ok_iff.mp stepped
  obtain ⟨offset, isCode, history, middleGiven⟩ :=
    readOpcode_isTraced hasGiven read
  obtain ⟨more, moreGiven, further⟩ :=
    exists_given_of_perform middleGiven performed
  have later : given.length < more.length := by
    rw [List.length_append] at further
    exact further
  refine ⟨more, moreGiven, ?_⟩
  have records : Records opcode middle
      (perform options (nestedPickle options) opcode middle) :=
    records_perform opcode middle
  rw [performed] at records
  cases records with
  | last same =>
      rw [same, history]
      exact isTrace.mono (Nat.le_of_lt later)
  | seen moment isOpcode isOffset recorded =>
      rw [recorded, history]
      cases seen : machine.history? with
      | none => exact .nil content _
      | some moments =>
          rw [seen] at isTrace
          refine isTrace.cons (isOffset.trans offset) ?_ later
          rw [isOpcode]
          exact isCode

theorem history_readOpcode (machine : Machine) :
    (finalState (readOpcode machine)).history? = machine.history? := by
  have moves : ∀ offset, Moves SameMoment (opcodeAt offset) := by
    intro offset
    refine .bind (sameMoment_decoding _) fun code => ?_
    dsimp only
    split
    · exact .pure _
    · exact .throw _
  rw [readOpcode_eq]
  exact (moves _ _).history

/-- A step that fails records nothing. -/
theorem history_of_step_error {failure : Failure}
    (failed : step options (nestedPickle options) machine =
      .error failure after) : after.history? = machine.history? := by
  have kept := history_readOpcode machine
  rw [step_eq] at failed
  cases read : readOpcode machine with
  | error failure middle =>
      rw [read] at kept
      rw [bind_of_eq_error read] at failed
      cases failed
      exact kept
  | ok opcode middle =>
      rw [read] at kept
      rw [bind_of_eq_ok read] at failed
      have records : Records opcode middle
          (perform options (nestedPickle options) opcode middle) :=
        records_perform opcode middle
      rw [failed] at records
      cases records with
      | failed same => exact same.trans kept

/-- Whatever becomes of a run, what it records is seen in the byte string. -/
theorem isTraced_runToEnd (options : Options)
    (isTraced : machine.IsTraced content) :
    (finalState (runToEnd options machine)).HasTraced content ∧
      ∀ value after, runToEnd options machine = .ok value after →
        after.IsTraced content := by
  induction size : machine.size using Nat.strongRecOn
    generalizing machine with
  | ind size inductionHypothesis =>
      subst size
      cases stepped : step options (nestedPickle options) machine with
      | error failure after =>
          rw [runToEnd_of_step_error stepped]
          refine ⟨?_, nofun⟩
          obtain ⟨given, _, isTrace⟩ := isTraced
          refine ⟨given.length, ?_⟩
          show IsTrace content _ (after.history?.getD [])
          rw [history_of_step_error stepped]
          exact isTrace
      | ok result after =>
          have afterTraced := isTraced_step isTraced stepped
          cases result with
          | none =>
              rw [runToEnd_of_step stepped]
              exact inductionHypothesis _
                (size_step (readOn_nestedPickle options) stepped)
                afterTraced rfl
          | some value =>
              rw [runToEnd_of_finish stepped]
              obtain ⟨given, hasGiven, isTrace⟩ := afterTraced
              refine ⟨⟨_, isTrace⟩, ?_⟩
              rintro _ _ ⟨⟩
              exact ⟨given, hasGiven, isTrace⟩

end Execution

end PickleGraph
