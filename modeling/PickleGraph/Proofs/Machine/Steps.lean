import PickleGraph.Proofs.Machine.Advance

/-!
# A run takes as many steps as it needs

The bound on the steps of a run is never met, so a run is described by its steps
alone: it executes one instruction after the other until a pickle ends, and the
pickles inside are decoded by runs of the same kind.
-/

namespace PickleGraph

open Actions

/-- How many bytes a source can still hand out. -/
def Source.size (source : Source) : Nat :=
  source.reader.remaining

/-- How many bytes a machine can still read. -/
def Machine.size (machine : Machine) : Nat :=
  machine.source.size

/-! ## Where the decoder of the pickles inside matters -/

section Agreement

variable {nested other : Decoding Value}

namespace Payload

/-! The parts of a placeholder are looked up in the heap, which changes neither
the heap nor the reader. -/

theorem quiet_query {α : Type} (answer : Heap → Except Failure α) :
    Moves Eq (Decoding.query answer) := by
  intro source
  unfold Decoding.query
  cases answer source.heap with
  | ok result => rfl
  | error failure => rfl

theorem quiet_ask {α : Type} (answer : Heap → Except Refusal α) :
    Moves Eq (Decoding.ask answer) := by
  rw [Decoding.ask_eq_query]
  exact quiet_query _

theorem quiet_checkShape (value : Value) (place : Option Nat) :
    Moves Eq (checkShape value place) := by
  refine .bind (fun _ => rfl) fun heap => ?_
  split
  · exact .pure _
  · exact .bind (quiet_ask _) fun _ => .throw _

theorem quiet_orderFlag (value : Value) : Moves Eq (orderFlag value) := by
  refine .bind (quiet_ask _) fun isFirst => ?_
  split
  · exact .pure _
  · refine .bind (quiet_ask _) fun isLast => ?_
    split
    · exact .pure _
    · exact .bind (quiet_ask _) fun _ =>
        .bind (fun _ => rfl) fun place => .throw _

theorem readNested_congr {source : Source}
    (same : nested source = other source) :
    readNested nested source = readNested other source := by
  refine bind_congr rfl fun place middle told => ?_
  cases told
  refine bind_congr ?_ fun _ _ _ => rfl
  unfold Decoding.mapFailure
  rw [bind_congr same fun _ _ _ => rfl]

theorem readInline_congr (names : CharacterNames) (record : Record) {source : Source}
    (same : nested source = other source) :
    readInline names record nested source =
      readInline names record other source := by
  unfold readInline
  cases record.field? "dtype" with
  | none => rfl
  | some type =>
  cases record.field? "shape" with
  | none => rfl
  | some shape =>
      refine (quiet_query _).bind_congr fun type => ?_
      refine Moves.bind_congr (fun _ => rfl) fun place => ?_
      refine (quiet_checkShape shape place).bind_congr fun shape => ?_
      refine (quiet_orderFlag _).bind_congr fun firstFastest => ?_
      by_cases holdsObjects : type.hasObject
      · rw [if_pos holdsObjects, if_pos holdsObjects]
        exact readNested_congr same
      · rw [if_neg holdsObjects, if_neg holdsObjects]

end Payload

namespace Execution

variable {options : Options}

theorem keeps_decoding {holds : Source → Prop} {α : Type}
    {action : Decoding α} (keeps : Moves (Keeps holds) action) :
    Moves (Keeps fun machine : Machine => holds machine.source)
      (decoding action) := by
  intro machine
  have kept := keeps machine.source
  unfold decoding
  split <;> next outcome =>
    rw [outcome] at kept
    exact kept

theorem decoding_congr {α : Type} {first second : Decoding α}
    {machine : Machine} (same : first machine.source = second machine.source) :
    decoding first machine = decoding second machine := by
  unfold decoding
  rw [same]

theorem fillPlaceholder_congr (address : Address) (record : Record)
    {machine : Machine} (same : nested machine.source = other machine.source) :
    fillPlaceholder options nested address record machine =
      fillPlaceholder options other address record machine := by
  unfold fillPlaceholder
  cases record.strategy with
  | array target layout =>
      refine bind_congr (decoding_congr ?_) fun _ _ _ => rfl
      cases layout with
      | inline => exact Payload.readInline_congr options.names record same
      | sibling => rfl
  | _ => rfl

/-- The decoder of the pickles inside is asked only behind a state that has been
given to a placeholder. -/
theorem perform_congr {opcode : Opcode} {machine : Machine}
    (same : opcode = .build → ∀ target middle,
      applyToTop machine = .ok target middle →
        nested middle.source = other middle.source) :
    perform options nested opcode machine =
      perform options other opcode machine := by
  refine bind_congr rfl fun instruction middle parsed => ?_
  obtain ⟨source, argued, rfl⟩ := decoding_eq_ok_iff.mp parsed
  have suits := Instruction.suits_ofOpcode options.rules opcode _ _ _ argued
  cases instruction with
  | build =>
      have isBuild : opcode = .build := suits
      subst isBuild
      cases argued
      refine bind_congr ?_ fun _ _ _ => rfl
      refine bind_congr ?_ fun _ _ _ => rfl
      rw [giveState_eq, giveState_eq]
      exact bind_congr rfl fun target middle applied =>
        fillPlaceholder_congr _ _ (same rfl target middle applied)
  | _ => rfl

end Execution

end Agreement

namespace Execution

variable {options : Options} {nested other : Decoding Value}

theorem step_congr {machine : Machine}
    (same : ∀ middle target last, readOpcode machine = .ok .build middle →
      applyToTop middle = .ok target last →
        nested last.source = other last.source) :
    step options nested machine = step options other machine := by
  rw [step_eq, step_eq]
  refine bind_congr rfl fun opcode middle read => perform_congr ?_
  rintro rfl target last applied
  exact same middle target last read applied

/-- A step asks for a pickle inside only behind its opcode. -/
theorem step_congr_of_size {machine : Machine}
    (agree : ∀ source : Source, source.size < machine.size →
      nested source = other source) :
    step options nested machine = step options other machine := by
  refine step_congr fun middle target last read applied => agree _ ?_
  have shorter : middle.size < machine.size := remaining_readOpcode read
  have moved := Stationary.applyToTop.readOn middle
  rw [applied] at moved
  exact Nat.lt_of_le_of_lt moved.remaining shorter

/-! ## Runs -/

/-- Decodes a pickle inside another one by a machine of its own. -/
def inside (action : Execution Value) : Decoding Value := fun source =>
  match action (Machine.ofReader source.reader source.heap false) with
  | .ok value after => .ok value ⟨after.source.reader.beneath, after.heap⟩
  | .error failure after =>
      .error failure ⟨after.source.reader.beneath, after.heap⟩

/-- What follows a step. -/
def continueWith (rest : Execution Value) :
    Option Value → Execution Value
  | some value => return value
  | none => rest

theorem run_succ (steps : Nat) (options : Options) :
    run (steps + 1) options =
      placed (step options (inside (run steps (nestedOptions options)))) >>=
        continueWith (run steps options) :=
  rfl

theorem readOn_beneath (reader : Reader) :
    reader.ReadOn reader.beneath := by
  cases reader with
  | file rest offset ending => exact .refl _
  | cursor below position => exact ⟨Nat.le_refl _, List.suffix_rfl⟩
  | unframer below position frame =>
      exact ⟨Nat.le_add_right _ _, List.suffix_rfl⟩

theorem readOn_inside {action : Execution Value}
    (moves : Moves Machine.ReadOn action) :
    Moves Source.ReadOn (inside action) := by
  intro source
  have moved := moves (Machine.ofReader source.reader source.heap false)
  have start : source.reader.ReadOn (.unframer source.reader 0 none) :=
    ⟨Nat.le_refl _, List.suffix_rfl⟩
  unfold inside
  split <;> next outcome =>
    rw [outcome] at moved
    exact (start.trans moved).trans (readOn_beneath _)

theorem readOn_placed {α : Type} {action : Execution α}
    (moves : Moves Machine.ReadOn action) :
    Moves Machine.ReadOn (placed action) := by
  intro machine
  have moved := moves machine
  unfold placed
  split <;> next outcome =>
    rw [outcome] at moved
    exact moved

theorem readOn_run (steps : Nat) (options : Options) :
    Moves Machine.ReadOn (run steps options) := by
  induction steps generalizing options with
  | zero => exact readOn_placed (.throw _)
  | succ steps inductionHypothesis =>
      rw [run_succ]
      refine .bind (readOn_placed (readOn_step
        (readOn_inside (inductionHypothesis _)))) fun result => ?_
      cases result with
      | some value => exact .pure value
      | none => exact inductionHypothesis options

theorem placed_eq_ok_iff {α : Type} {action : Execution α}
    {machine after : Machine} {result : α} :
    placed action machine = .ok result after ↔
      action machine = .ok result after := by
  unfold placed
  cases action machine with
  | ok value middle => rfl
  | error failure middle => simp

theorem placed_congr {α : Type} {first second : Execution α}
    {machine : Machine} (same : first machine = second machine) :
    placed first machine = placed second machine := by
  unfold placed
  rw [same]

/-- A step that succeeds has read its opcode. -/
theorem size_step (nestedMoves : Moves Source.ReadOn nested)
    {machine after : Machine} {result : Option Value}
    (success : step options nested machine = .ok result after) :
    after.size < machine.size := by
  rw [step_eq] at success
  obtain ⟨opcode, middle, first, rest⟩ := bind_eq_ok_iff.mp success
  have shorter : middle.size < machine.size := remaining_readOpcode first
  have moved : Moves Machine.ReadOn (perform options nested opcode) :=
    readOn_perform nestedMoves opcode
  have moved := moved middle
  rw [rest] at moved
  exact Nat.lt_of_le_of_lt moved.remaining shorter

theorem inside_congr {first second : Execution Value} {source : Source}
    (same : first (Machine.ofReader source.reader source.heap false) =
      second (Machine.ofReader source.reader source.heap false)) :
    inside first source = inside second source := by
  unfold inside
  rw [same]

/-- All bounds above the number of bytes give the same run. -/
theorem run_eq_run {steps others : Nat} {options : Options}
    {machine : Machine}
    (enough : machine.size < steps) (alsoEnough : machine.size < others) :
    run steps options machine = run others options machine := by
  induction steps generalizing others options machine with
  | zero => exact absurd enough (Nat.not_lt_zero _)
  | succ steps inductionHypothesis =>
      obtain ⟨others, rfl⟩ :=
        Nat.exists_eq_succ_of_ne_zero (Nat.ne_zero_of_lt alsoEnough)
      have nestedSame : ∀ source : Source, source.size < machine.size →
          inside (run steps (nestedOptions options)) source =
            inside (run others (nestedOptions options)) source :=
        fun source smaller => inside_congr (inductionHypothesis
          (Nat.lt_of_lt_of_le smaller (Nat.le_of_lt_succ enough))
          (Nat.lt_of_lt_of_le smaller (Nat.le_of_lt_succ alsoEnough)))
      rw [run_succ, run_succ]
      refine bind_congr (placed_congr (step_congr_of_size nestedSame))
        fun result after outcome => ?_
      cases result with
      | some value => rfl
      | none =>
          have smaller := size_step (readOn_inside (readOn_run _ _))
            (placed_eq_ok_iff.mp outcome)
          exact inductionHypothesis
            (Nat.lt_of_lt_of_le smaller (Nat.le_of_lt_succ enough))
            (Nat.lt_of_lt_of_le smaller (Nat.le_of_lt_succ alsoEnough))

/-- Decodes a pickle to its end. -/
def runToEnd (options : Options) : Execution Value := fun machine =>
  run (machine.size + 1) options machine

/-- Decodes a pickle inside one that is decoded under these options. -/
def nestedPickle (options : Options) : Decoding Value :=
  inside (runToEnd (nestedOptions options))

theorem readOn_runToEnd (options : Options) :
    Moves Machine.ReadOn (runToEnd options) :=
  fun machine => readOn_run (machine.size + 1) options machine

theorem readOn_nestedPickle (options : Options) :
    Moves Source.ReadOn (nestedPickle options) :=
  readOn_inside (readOn_runToEnd _)

/-- A run is a step and, unless the pickle has ended, a run. -/
theorem runToEnd_eq (options : Options) :
    runToEnd options =
      placed (step options (nestedPickle options)) >>=
        continueWith (runToEnd options) := by
  funext machine
  have nestedSame : ∀ source : Source, source.size < machine.size →
      inside (run machine.size (nestedOptions options)) source =
        nestedPickle options source :=
    fun source smaller => inside_congr
      (run_eq_run smaller (Nat.lt_succ_self _))
  rw [runToEnd, run_succ]
  refine bind_congr (placed_congr (step_congr_of_size nestedSame))
    fun result after outcome => ?_
  cases result with
  | some value => rfl
  | none =>
      have smaller := size_step (readOn_inside (readOn_run _ _))
        (placed_eq_ok_iff.mp outcome)
      exact run_eq_run smaller (Nat.lt_succ_self _)

theorem load_eq (options : Options) (machine : Machine) :
    Machine.load options machine = runToEnd options machine.restart :=
  rfl

/-- A machine before the first pickle of a byte string. -/
def startOn (content : Bytes) : Machine :=
  (Machine.ofReader (.ofBytes content) .empty false).restart

theorem decode_eq_ok_iff {options : Options} {content : Bytes}
    {value : Value} {heap : Heap} :
    options.decode content = .ok (value, heap) ↔
      ∃ last, runToEnd options (startOn content) = .ok value last ∧
        last.heap = heap := by
  have loaded : Machine.load options
      (Machine.ofReader (.ofBytes content) .empty false) =
        runToEnd options (startOn content) :=
    load_eq options _
  rw [Options.decode, Options.decodeReader, loaded]
  cases runToEnd options (startOn content) with
  | ok result last =>
      constructor
      · rintro ⟨⟩
        exact ⟨last, rfl, rfl⟩
      · rintro ⟨_, ⟨⟩, rfl⟩
        rfl
  | error failure last => simp

end Execution

end PickleGraph
