import PickleGraph.Proofs.Graph.Ledger
import PickleGraph.Proofs.Machine.Intact
import PickleGraph.Proofs.Machine.Placeholder

/-!
# Slots of the memo

An opcode without a number binds the slot that is the number of bound slots. As
long as no stream names a slot beyond this number, the slots of a memo are the
numbers below its size, in every pickle of the input and after every failure,
and such an opcode never binds a slot again. A slot holds what was last bound to
it, or the array that has since taken its place.
-/

namespace PickleGraph

open Actions

namespace Memo

/-! ## Slots that are bound -/

/-- The slots after one of them has been bound. -/
def bindSlot (slot : Nat) (slots : List Nat) : List Nat :=
  if slot ∈ slots then slots else slots ++ [slot]

theorem slots_insert (slot : Nat) (value : Value)
    (memo : List (Nat × Value)) :
    (insert slot value memo).map Prod.fst =
      bindSlot slot (memo.map Prod.fst) := by
  by_cases member : slot ∈ memo.map Prod.fst
  · rw [bindSlot, if_pos member]
    induction memo with
    | nil => cases member
    | cons entry rest inductionHypothesis =>
        obtain ⟨bound, old⟩ := entry
        rw [insert]
        split
        · rfl
        · next other =>
            have later := (List.mem_cons.mp member).resolve_left
              fun same => other same.symm
            rw [List.map_cons, List.map_cons, inductionHypothesis later]
  · rw [bindSlot, if_neg member, insert_of_notMem member, List.map_append]
    rfl

theorem isSome_lookup_iff {slot : Nat} {memo : List (Nat × Value)} :
    (memo.lookup slot).isSome = true ↔ slot ∈ memo.map Prod.fst := by
  induction memo with
  | nil => simp
  | cons entry rest inductionHypothesis =>
      rw [List.lookup_cons, List.map_cons, List.mem_cons,
        ← inductionHypothesis]
      by_cases same : slot = entry.1
      · simp [same]
      · simp [same, beq_false_of_ne same]

/-- The slots of the memo are the numbers below its size. -/
def IsDense (memo : List (Nat × Value)) : Prop :=
  memo.map Prod.fst = List.range memo.length

namespace IsDense

variable {memo : List (Nat × Value)} {slot : Nat}

theorem isSome_lookup_iff (dense : IsDense memo) :
    (memo.lookup slot).isSome = true ↔ slot < memo.length := by
  rw [Memo.isSome_lookup_iff, dense, List.mem_range]

theorem lookup_length (dense : IsDense memo) :
    memo.lookup memo.length = none := by
  rw [← Option.not_isSome_iff_eq_none, dense.isSome_lookup_iff]
  exact Nat.lt_irrefl _

theorem insert_length (dense : IsDense memo) (value : Value) :
    insert memo.length value memo = memo ++ [(memo.length, value)] := by
  refine insert_of_notMem ?_
  rw [dense, List.mem_range]
  exact Nat.lt_irrefl _

theorem insert (dense : IsDense memo) (value : Value)
    (within : slot ≤ memo.length) : IsDense (insert slot value memo) := by
  rcases Nat.lt_or_eq_of_le within with isBound | rfl
  · have slots : (Memo.insert slot value memo).map Prod.fst =
        memo.map Prod.fst := by
      rw [slots_insert, bindSlot, if_pos]
      rw [dense, List.mem_range]
      exact isBound
    have size : (Memo.insert slot value memo).length = memo.length := by
      rw [← List.length_map Prod.fst, slots, List.length_map]
    rw [IsDense, slots, size, dense]
  · rw [dense.insert_length, IsDense, List.map_append, dense,
      List.length_append, List.length_singleton, List.range_succ]
    rfl

end IsDense

/-! ## Writes -/

/-- A value is bound to a slot, or an array takes the place of an object. -/
inductive Write
  | bind (slot : Nat) (value : Value)
  | replace (address : Address) (array : Value)

namespace Write

/-- The memo after a write. -/
def apply (memo : List (Nat × Value)) : Write → List (Nat × Value)
  | .bind slot value => insert slot value memo
  | .replace address array => Memo.replace address array memo

/-- A write binds no slot beyond the size of the memo. -/
def IsWithin (memo : List (Nat × Value)) : Write → Prop
  | .bind slot _ => slot ≤ memo.length
  | .replace _ _ => True

end Write

/-- What a slot holds after writes, the latest of which stands first: the value
last bound to it, or the array that has since taken its place. -/
def heldAfter : List Write → Nat → Option Value
  | [], _ => none
  | .bind slot value :: earlier, asked =>
      if asked = slot then some value else heldAfter earlier asked
  | .replace address array :: earlier, asked =>
      (heldAfter earlier asked).map (replacement address array)

variable {memo : List (Nat × Value)}

theorem IsDense.apply {write : Write} (dense : IsDense memo)
    (within : write.IsWithin memo) : IsDense (write.apply memo) := by
  cases write with
  | bind slot value => exact dense.insert value within
  | replace address array =>
      have size : (Memo.replace address array memo).length = memo.length :=
        List.length_map _
      rw [Write.apply, IsDense, slots_replace, size]
      exact dense

theorem lookup_apply {write : Write} {log : List Write}
    (held : ∀ slot, memo.lookup slot = heldAfter log slot) (slot : Nat) :
    (write.apply memo).lookup slot = heldAfter (write :: log) slot := by
  cases write with
  | bind bound value =>
      rw [Write.apply, lookup_insert, heldAfter, held]
  | replace address array =>
      rw [Write.apply, replace_eq_map, lookup_map, heldAfter, held]

/-- No write takes a slot away. -/
theorem isSome_lookup_apply {slot : Nat} (write : Write)
    (bound : (memo.lookup slot).isSome = true) :
    ((write.apply memo).lookup slot).isSome = true := by
  cases write with
  | bind other value =>
      rw [Write.apply, lookup_insert]
      split
      · rfl
      · exact bound
  | replace address array =>
      rw [Write.apply, replace_eq_map, lookup_map, Option.isSome_map]
      exact bound

end Memo

/-- The change to a given memo. -/
def Machine.Change.remembering (memo : List (Nat × Value)) :
    Machine.Change where
  reader := id
  memo _ := memo
  offset := id
  history? := id

theorem Machine.Change.keepsPlace_remembering (memo : List (Nat × Value)) :
    (Machine.Change.remembering memo).KeepsPlace :=
  ⟨fun _ => rfl, fun _ => rfl⟩

namespace Execution

variable {options : Options} {nested : Decoding Value}
variable {machine opened after : Machine} {instruction : Instruction}
variable {result : Option Value}

/-! ## The instruction that is next -/

theorem Overlooks.readOpcode {change : Machine.Change}
    (keepsPlace : change.KeepsPlace) :
    Overlooks change Execution.readOpcode := by
  have sameReader : ∀ machine : Machine,
      (machine.changed change).source.reader = machine.source.reader :=
    fun machine => keepsPlace.reader machine.source.reader
  refine .get (fun machine => by rw [sameReader]) fun machine => ?_
  refine .bind (.modify fun machine => ?_) fun _ => ?_
  · exact congrArg (fun offset => { machine.changed change with offset })
      (keepsPlace.offset _).symm
  · refine .bind (.decoding keepsPlace _) fun code => ?_
    dsimp only
    split
    · exact .pure _
    · exact .throw _

/-- Reads the opcode before which the machine stands, with its argument. -/
def readInstruction (rules : TextRules) : Execution Instruction := do
  let opcode ← readOpcode
  decoding (Instruction.ofOpcode rules opcode)

theorem opened_of_readInstruction {rules : TextRules}
    (read : readInstruction rules machine = .ok instruction opened) :
    opened = { machine with
      source := opened.source
      offset := opened.offset } := by
  obtain ⟨opcode, middle, found, parsed⟩ := bind_eq_ok_iff.mp read
  obtain ⟨_, _, _, _, rfl⟩ := readOpcode_eq_ok_iff.mp found
  obtain ⟨_, _, rfl⟩ := decoding_eq_ok_iff.mp parsed
  rfl

/-- A step ends as the instruction does that is next. -/
theorem step_of_readInstruction
    (read : readInstruction options.rules machine = .ok instruction opened)
    (nested : Decoding Value) :
    ∃ opcode, step options nested machine =
      match execute options nested instruction opened with
      | .ok result last => .ok result (recorded opcode result last)
      | .error failure last => .error failure last := by
  obtain ⟨opcode, middle, found, parsed⟩ := bind_eq_ok_iff.mp read
  refine ⟨opcode, ?_⟩
  rw [step_eq, bind_of_eq_ok found, perform, bind_of_eq_ok parsed]
  cases executed : execute options nested instruction opened with
  | ok result last =>
      rw [bind_of_eq_ok executed]
      cases result <;> rfl
  | error failure last => exact bind_of_eq_error executed

theorem step_of_readInstruction_error {failure : Failure}
    (failed : readInstruction options.rules machine = .error failure after) :
    step options nested machine = .error failure after := by
  rw [step_eq]
  cases found : readOpcode machine with
  | ok opcode middle =>
      rw [readInstruction, bind_of_eq_ok found] at failed
      rw [bind_of_eq_ok found]
      exact bind_of_eq_error failed
  | error other middle =>
      rw [readInstruction, bind_of_eq_error found] at failed
      cases failed
      exact bind_of_eq_error found

theorem step_eq_ok_of_readInstruction
    (read : readInstruction options.rules machine = .ok instruction opened)
    (success : step options nested machine = .ok result after) :
    ∃ last opcode,
      execute options nested instruction opened = .ok result last ∧
        after = recorded opcode result last := by
  obtain ⟨opcode, stepped⟩ := step_of_readInstruction read nested
  rw [stepped] at success
  split at success
  · next executed =>
      cases success
      exact ⟨_, opcode, executed, rfl⟩
  · cases success

/-! ## What instructions do with the memo -/

theorem proceed_eq_ok_iff {action : Execution Unit} :
    execute.proceed action machine = .ok result after ↔
      result = none ∧ action machine = .ok () after := by
  constructor
  · intro success
    obtain ⟨_, _, done, ended⟩ := bind_eq_ok_iff.mp success
    cases ended
    exact ⟨rfl, done⟩
  · rintro ⟨rfl, done⟩
    exact bind_of_eq_ok done

theorem memoPut_eq_ok_iff {slot : Nat} :
    memoPut slot machine = .ok () after ↔
      ∃ top below, machine.stack = top :: below ∧
        after = { machine with
          memo := Memo.insert slot top machine.memo } := by
  obtain ⟨source, stack, marks, memo, protocol, offset, history⟩ := machine
  cases stack with
  | nil =>
      constructor
      · intro success
        cases success
      · rintro ⟨_, _, isStack, _⟩
        cases isStack
  | cons top below =>
      constructor
      · intro success
        cases success
        exact ⟨top, below, rfl, rfl⟩
      · rintro ⟨_, _, isStack, rfl⟩
        cases isStack
        rfl

theorem execute_put_eq_ok_iff {slot : Int} :
    execute options nested (.put slot) machine = .ok result after ↔
      result = none ∧ 0 ≤ slot ∧ ∃ top below, machine.stack = top :: below ∧
        after = { machine with
          memo := Memo.insert slot.toNat top machine.memo } := by
  rw [execute, proceed_eq_ok_iff, ← memoPut_eq_ok_iff]
  refine and_congr_right fun _ => ?_
  by_cases negative : slot < 0
  · rw [if_pos negative]
    constructor
    · intro success
      cases success
    · rintro ⟨natural, _⟩
      exact absurd natural (Int.not_le.mpr negative)
  · rw [if_neg negative]
    exact (and_iff_right (Int.not_lt.mp negative)).symm

theorem execute_memoize_eq_ok_iff :
    execute options nested .memoize machine = .ok result after ↔
      result = none ∧ ∃ top below, machine.stack = top :: below ∧
        after = { machine with
          memo := Memo.insert machine.memo.length top machine.memo } := by
  rw [execute, proceed_eq_ok_iff, get_bind, memoPut_eq_ok_iff]

theorem memoGet_eq_ok_iff {slot : Int} {value : Value} :
    memoGet slot machine = .ok value after ↔
      0 ≤ slot ∧ machine.memo.lookup slot.toNat = some value ∧
        after = machine := by
  rw [memoGet, get_bind]
  by_cases negative : slot < 0
  · rw [if_pos negative]
    dsimp only
    constructor
    · intro success
      split at success <;> cases success
    · rintro ⟨natural, _⟩
      exact absurd natural (Int.not_le.mpr negative)
  · rw [if_neg negative, and_iff_right (Int.not_lt.mp negative)]
    cases found : machine.memo.lookup slot.toNat with
    | none =>
        dsimp only
        constructor
        · intro success
          split at success <;> cases success
        · rintro ⟨isSome, _⟩
          cases isSome
    | some held =>
        constructor
        · intro success
          cases success
          exact ⟨rfl, rfl⟩
        · rintro ⟨isHeld, rfl⟩
          cases isHeld
          rfl

theorem execute_get_eq_ok_iff {slot : Int} :
    execute options nested (.get slot) machine = .ok result after ↔
      result = none ∧ ∃ value, 0 ≤ slot ∧
        machine.memo.lookup slot.toNat = some value ∧
        after = { machine with stack := value :: machine.stack } := by
  rw [execute, proceed_eq_ok_iff, bind_eq_ok_iff]
  refine and_congr_right fun _ => exists_congr fun value => ?_
  constructor
  · rintro ⟨_, found, pushed⟩
    obtain ⟨natural, isHeld, rfl⟩ := memoGet_eq_ok_iff.mp found
    cases pushed
    exact ⟨natural, isHeld, rfl⟩
  · rintro ⟨natural, isHeld, rfl⟩
    exact ⟨machine, memoGet_eq_ok_iff.mpr ⟨natural, isHeld, rfl⟩, rfl⟩

/-- What does the same beside any other memo leaves the memo alone. -/
theorem Overlooks.memo {α : Type} {action : Execution α}
    (overlooks : ∀ memo, Overlooks (.remembering memo) action)
    (machine : Machine) :
    (finalState (action machine)).memo = machine.memo := by
  have same := overlooks machine.memo machine
  have unchanged :
      machine.changed (.remembering machine.memo) = machine := rfl
  rw [unchanged] at same
  cases outcome : action machine with
  | ok value after =>
      rw [outcome] at same
      exact congrArg (finalState · |>.memo) same
  | error failure after =>
      rw [outcome] at same
      exact congrArg (finalState · |>.memo) same

/-- What keeps its place and does not look at the memo overlooks every change
of it, frames included. -/
theorem overlooks_execute_of_keepsPlace {change : Machine.Change}
    (keepsPlace : change.KeepsPlace) (noMemo : asksMemo instruction = false)
    (noBuild : instruction ≠ .build) :
    Overlooks change (execute options nested instruction) := by
  by_cases isFrame : ∃ size, instruction = .frame size
  · obtain ⟨size, rfl⟩ := isFrame
    exact .bind (.decoding keepsPlace _) fun _ => .pure _
  · refine overlooks_execute options nested instruction
      (fun size same => isFrame ⟨size, same⟩) noBuild fun isAsked => ?_
    cases noMemo.symm.trans isAsked

theorem finalMemo_execute (noMemo : asksMemo instruction = false)
    (noBuild : instruction ≠ .build) (machine : Machine) :
    (finalState (execute options nested instruction machine)).memo =
      machine.memo := by
  have overlooks : ∀ memo, Overlooks (.remembering memo)
      (execute options nested instruction) := fun memo =>
    overlooks_execute_of_keepsPlace
      (Machine.Change.keepsPlace_remembering memo) noMemo noBuild
  exact Overlooks.memo overlooks machine

theorem memo_of_execute (noMemo : asksMemo instruction = false)
    (noBuild : instruction ≠ .build)
    (executed : execute options nested instruction machine =
      .ok result after) :
    after.memo = machine.memo := by
  have same : (finalState (execute options nested instruction
      machine)).memo = machine.memo :=
    finalMemo_execute noMemo noBuild machine
  rw [executed] at same
  exact same

/-- A failure leaves the memo alone, whatever the instruction. -/
theorem memo_of_execute_error {failure : Failure}
    (failed : execute options (nestedPickle options) instruction machine =
      .error failure after) :
    after.memo = machine.memo := by
  by_cases isBuild : instruction = .build
  · subst isBuild
    have given := of_proceed_error failed
    rw [giveState_eq] at given
    cases applied : applyToTop machine with
    | error other last =>
        rw [bind_of_eq_error applied] at given
        cases given
        exact (Harmless.applyToTop _ _ _ applied).memo
    | ok target last =>
        rw [bind_of_eq_ok applied] at given
        have unharmed := Harmless.fillPlaceholder
          (unharmed_nestedPickle options) _ _ _ _ _ given
        obtain ⟨_, _, _, _, _, _, rfl⟩ := applyToTop_eq_ok applied
        exact unharmed.memo
  cases asked : asksMemo instruction with
  | true =>
      refine (harmless_execute isBuild ?_ ?_ _ _ _ failed).memo <;>
        rintro rfl <;> cases asked
  | false =>
      have same : (finalState (execute options (nestedPickle options)
          instruction machine)).memo = machine.memo :=
        finalMemo_execute asked isBuild machine
      rw [failed] at same
      exact same

/-! ## What a step writes -/

/-- What an instruction writes in the memo, from the machines before and behind
it: a slot is bound to the top of the stack, or an array has taken the place of
the object below a state. -/
def writeOf (before after : Machine) : Instruction → Option Memo.Write
  | .put slot => before.stack.head?.map (.bind slot.toNat)
  | .memoize => before.stack.head?.map (.bind before.memo.length)
  | .build =>
      match before.stack, after.stack with
      | _ :: .object address :: _, array :: _ =>
          if (after.heap.array? array).isSome then
            some (.replace address array)
          else
            none
      | _, _ => none
  | _ => none

/-- The memo with what was written, if anything was. -/
def written (memo : List (Nat × Value)) (write? : Option Memo.Write) :
    List (Nat × Value) :=
  write?.elim memo (Memo.Write.apply memo)

section Build

variable {state value : Value} {below rest : List Value} {address : Address}
variable (before : machine.stack = state :: .object address :: below)
variable (behind : after.stack = value :: rest)

include before behind

theorem writeOf_array (isArray : (after.heap.array? value).isSome = true) :
    writeOf machine after .build = some (.replace address value) := by
  rw [writeOf, before, behind]
  exact if_pos isArray

theorem writeOf_noArray
    (noArray : ¬ (after.heap.array? value).isSome = true) :
    writeOf machine after .build = none := by
  rw [writeOf, before, behind]
  exact if_neg noArray

end Build

theorem memo_of_build
    (executed : execute options nested .build machine = .ok result after) :
    after.memo = written machine.memo (writeOf machine after .build) := by
  obtain ⟨_, given⟩ := proceed_eq_ok_iff.mp executed
  rw [giveState_eq] at given
  obtain ⟨⟨address, filled⟩, last, applied, filledIn⟩ :=
    bind_eq_ok_iff.mp given
  obtain ⟨state, below, record, stack, here, _, rfl⟩ :=
    applyToTop_eq_ok applied
  dsimp only at stack here filledIn
  unfold fillPlaceholder at filledIn
  cases strategy : filled.strategy with
  | array target layout =>
      rw [strategy] at filledIn
      obtain ⟨array, _, fetched, put⟩ := bind_eq_ok_iff.mp filledIn
      obtain ⟨source, read, rfl⟩ := decoding_eq_ok_iff.mp fetched
      have behind : after.stack = array :: below := by
        cases put
        rfl
      have isArray : (after.heap.array? array).isSome = true := by
        cases put
        exact givesArray_materialize options _ layout filled _ _ _ read
      rw [writeOf_array stack behind isArray]
      cases put
      rfl
  | _ =>
      rw [strategy] at filledIn
      have behind : after.stack = .object address :: below := by
        cases filledIn
        rfl
      have isRecord : after.heap.get address = .record filled := by
        cases filledIn
        exact Heap.get_set_self _
          (Heap.lt_size_of_get here Object.noConfusion)
      have noArray : ¬ (after.heap.array? (.object address)).isSome = true := by
        intro isArray
        obtain ⟨_, found⟩ := Option.isSome_iff_exists.mp isArray
        obtain ⟨_, same, isContent⟩ := Heap.array?_eq_some_iff.mp found
        cases same
        cases isRecord.symm.trans isContent
      rw [writeOf_noArray stack behind noArray]
      cases filledIn
      rfl

/-- An instruction that succeeds leaves the memo with what it writes. -/
theorem memo_of_execute_ok
    (executed : execute options nested instruction machine =
      .ok result after) :
    after.memo =
      written machine.memo (writeOf machine after instruction) := by
  cases instruction with
  | put slot =>
      obtain ⟨_, _, top, below, stack, rfl⟩ :=
        execute_put_eq_ok_iff.mp executed
      rw [writeOf, stack]
      rfl
  | memoize =>
      obtain ⟨_, top, below, stack, rfl⟩ :=
        execute_memoize_eq_ok_iff.mp executed
      rw [writeOf, stack]
      rfl
  | get slot =>
      obtain ⟨_, _, _, _, rfl⟩ := execute_get_eq_ok_iff.mp executed
      rfl
  | build => exact memo_of_build executed
  | _ => exact memo_of_execute rfl Instruction.noConfusion executed

/-- Only an opcode that looks at the memo binds a slot. -/
theorem slots_of_execute (noMemo : asksMemo instruction = false)
    (executed : execute options nested instruction machine =
      .ok result after) :
    after.memo.map Prod.fst = machine.memo.map Prod.fst := by
  by_cases isBuild : instruction = .build
  · subst isBuild
    rw [memo_of_build executed, writeOf]
    split
    · split
      · exact Memo.slots_replace _ _ machine.memo
      · rfl
    · rfl
  · rw [memo_of_execute noMemo isBuild executed]

/-- What the next step writes in the memo. -/
def nextWrite (options : Options) (machine : Machine) : Option Memo.Write :=
  match readInstruction options.rules machine,
      step options (nestedPickle options) machine with
  | .ok instruction _, .ok _ after => writeOf machine after instruction
  | _, _ => none

theorem writeOf_recorded {opcode : Opcode} :
    writeOf machine (recorded opcode result after) instruction =
      writeOf machine after instruction := by
  cases instruction <;> cases result <;> rfl

theorem writeOf_opened {rules : TextRules}
    (read : readInstruction rules machine = .ok instruction opened) :
    writeOf opened after instruction = writeOf machine after instruction := by
  rw [opened_of_readInstruction read]
  cases instruction <;> rfl

theorem finalState_placed {α : Type} (action : Execution α)
    (machine : Machine) :
    finalState (placed action machine) = finalState (action machine) := by
  unfold placed
  cases action machine <;> rfl

theorem memo_of_readInstruction_error {rules : TextRules}
    {failure : Failure}
    (failed : readInstruction rules machine = .error failure after) :
    after.memo = machine.memo := by
  have overlooks : ∀ memo, Overlooks (.remembering memo)
      (readInstruction rules) :=
    fun memo =>
      have keepsPlace := Machine.Change.keepsPlace_remembering memo
      .bind (.readOpcode keepsPlace) fun opcode => .decoding keepsPlace _
  have same := Overlooks.memo overlooks machine
  rw [failed] at same
  exact same

/-- A step leaves the memo with what it writes, and a failure with nothing
new. -/
theorem memo_advance (options : Options) (machine : Machine) :
    (advance options machine).memo =
      written machine.memo (nextWrite options machine) := by
  rw [advance, finalState_placed, nextWrite]
  cases read : readInstruction options.rules machine with
  | error failure last =>
      rw [step_of_readInstruction_error read]
      exact memo_of_readInstruction_error read
  | ok instruction opened =>
      have still := opened_of_readInstruction read
      have sameMemo : opened.memo = machine.memo := by
        rw [still]
      obtain ⟨opcode, stepped⟩ :=
        step_of_readInstruction read (nestedPickle options)
      rw [stepped]
      cases executed :
          execute options (nestedPickle options) instruction opened with
      | error failure last =>
          exact (memo_of_execute_error executed).trans sameMemo
      | ok result last =>
          dsimp only
          rw [writeOf_recorded, ← writeOf_opened read, ← sameMemo]
          exact (recorded_memo opcode result last).trans
            (memo_of_execute_ok executed)

/-! ## Sessions -/

/-- The slot that the next opcode names to bind it. -/
def namedSlot? (options : Options) (machine : Machine) : Option Int :=
  match readInstruction options.rules machine with
  | .ok (.put slot) _ => some slot
  | _ => none

/-- The next opcode names no slot beyond the size of the memo. -/
def NamesWithin (options : Options) (machine : Machine) : Prop :=
  ∀ slot ∈ namedSlot? options machine, slot ≤ machine.memo.length

instance (options : Options) (machine : Machine) :
    Decidable (NamesWithin options machine) :=
  inferInstanceAs (Decidable (∀ slot ∈ namedSlot? options machine,
    slot ≤ (machine.memo.length : Int)))

/-- The machines that one memo goes through, over any number of pickles and
failures, with all that has been written in it, the latest first. No opcode has
named a slot beyond the size of the memo. -/
inductive Session (options : Options) : List Memo.Write → Machine → Prop
  | start (reader : Reader) (heap : Heap) (isRecorded : Bool) :
      Session options [] (Machine.ofReader reader heap isRecorded)
  | restart {log : List Memo.Write} {machine : Machine} :
      Session options log machine → Session options log machine.restart
  | step {log : List Memo.Write} {machine : Machine} :
      Session options log machine → NamesWithin options machine →
      Session options ((nextWrite options machine).toList ++ log)
        (advance options machine)

theorem isWithin_nextWrite {write : Memo.Write}
    (within : NamesWithin options machine)
    (isNext : nextWrite options machine = some write) :
    write.IsWithin machine.memo := by
  rw [nextWrite] at isNext
  split at isNext
  · next instruction opened _ after read _ =>
      cases instruction with
      | put slot =>
          have named : namedSlot? options machine = some slot := by
            rw [namedSlot?, read]
          have bound := within slot named
          obtain ⟨top, _, rfl⟩ := Option.map_eq_some_iff.mp isNext
          exact Int.toNat_le.mpr bound
      | memoize =>
          obtain ⟨top, _, rfl⟩ := Option.map_eq_some_iff.mp isNext
          exact Nat.le_refl _
      | build =>
          rw [writeOf] at isNext
          split at isNext
          · split at isNext
            · cases isNext
              trivial
            · cases isNext
          · cases isNext
      | _ => cases isNext
  · cases isNext

namespace Session

variable {log : List Memo.Write}

theorem isDense (session : Session options log machine) :
    Memo.IsDense machine.memo := by
  induction session with
  | start => rfl
  | restart _ inductionHypothesis => exact inductionHypothesis
  | @step log machine _ within inductionHypothesis =>
      rw [memo_advance]
      cases isNext : nextWrite options machine with
      | none => exact inductionHypothesis
      | some write =>
          exact inductionHypothesis.apply (isWithin_nextWrite within isNext)

/-- The memo holds what has been written in it. -/
theorem lookup_memo (session : Session options log machine) (slot : Nat) :
    machine.memo.lookup slot = Memo.heldAfter log slot := by
  induction session generalizing slot with
  | start => rfl
  | restart _ inductionHypothesis => exact inductionHypothesis slot
  | @step log machine _ _ inductionHypothesis =>
      rw [memo_advance]
      cases nextWrite options machine with
      | none => exact inductionHypothesis slot
      | some write => exact Memo.lookup_apply inductionHypothesis slot

end Session

/-- The machines that a pickle is decoded with, up to its end or a failure. -/
inductive Passes (options : Options) : Machine → Machine → Prop
  | here (machine : Machine) : Passes options machine machine
  | next {machine after last : Machine} :
      step options (nestedPickle options) machine = .ok none after →
      Passes options after last → Passes options machine last

/-- A session goes on through a pickle that names no slot beyond the memo,
whether it is decoded or fails. -/
theorem Session.run {log : List Memo.Write}
    (session : Session options log machine)
    (within : ∀ visited, Passes options machine visited →
      NamesWithin options visited) :
    ∃ later, Session options (later ++ log)
      (finalState (runToEnd options machine)) := by
  induction size : machine.size using Nat.strongRecOn
    generalizing machine log with
  | ind size inductionHypothesis =>
      have stepped := session.step (within machine (.here machine))
      rw [advance] at stepped
      rw [runToEnd_eq]
      cases outcome :
          placed (Execution.step options (nestedPickle options)) machine with
      | error failure after =>
          rw [outcome] at stepped
          rw [bind_of_eq_error outcome]
          exact ⟨_, stepped⟩
      | ok result after =>
          rw [outcome] at stepped
          rw [bind_of_eq_ok outcome]
          cases result with
          | some value => exact ⟨_, stepped⟩
          | none =>
              have success := placed_eq_ok_iff.mp outcome
              have smaller := size_step (readOn_nestedPickle options) success
              obtain ⟨later, finished⟩ := inductionHypothesis after.size
                (size ▸ smaller) stepped
                (fun visited passes => within visited (.next success passes))
                rfl
              rw [← List.append_assoc] at finished
              exact ⟨_, finished⟩

/-- Another pickle of the input belongs to the session. -/
theorem Session.load {log : List Memo.Write}
    (session : Session options log machine)
    (within : ∀ visited, Passes options machine.restart visited →
      NamesWithin options visited) :
    ∃ later, Session options (later ++ log)
      (finalState (Machine.load options machine)) := by
  rw [load_eq]
  exact session.restart.run within

/-! ## Numbers of slots -/

/-- The slots are the numbers below the size of the memo, and a step takes none
of them away. An opcode without a number binds the next of them, and a slot can
be fetched if it is one of them. -/
structure CountsSlots (options : Options) (log : List Memo.Write)
    (machine : Machine) : Prop where
  slots : machine.memo.map Prod.fst = List.range machine.memo.length
  restarted : machine.restart.memo = machine.memo
  kept : ∀ slot, (machine.memo.lookup slot).isSome = true →
    ((advance options machine).memo.lookup slot).isSome = true
  isFree : machine.memo.lookup machine.memo.length = none
  memoized : ∀ {opened after : Machine} {result : Option Value},
    readInstruction options.rules machine = .ok .memoize opened →
    step options (nestedPickle options) machine = .ok result after →
    ∃ top below, machine.stack = top :: below ∧
      after.memo = machine.memo ++ [(machine.memo.length, top)]
  canFetch : ∀ {slot : Int} {opened : Machine},
    readInstruction options.rules machine = .ok (.get slot) opened →
    ((∃ result after,
        step options (nestedPickle options) machine = .ok result after) ↔
      0 ≤ slot ∧ slot < machine.memo.length)
  fetched : ∀ {slot : Int} {opened after : Machine} {result : Option Value},
    readInstruction options.rules machine = .ok (.get slot) opened →
    step options (nestedPickle options) machine = .ok result after →
    ∃ value, Memo.heldAfter log slot.toNat = some value ∧
      after.stack = value :: machine.stack

theorem kept_advance {slot : Nat}
    (bound : (machine.memo.lookup slot).isSome = true) :
    ((advance options machine).memo.lookup slot).isSome = true := by
  rw [memo_advance]
  cases nextWrite options machine with
  | none => exact bound
  | some write => exact Memo.isSome_lookup_apply write bound

theorem step_memoize (dense : Memo.IsDense machine.memo)
    (read : readInstruction options.rules machine = .ok .memoize opened)
    (success : step options nested machine = .ok result after) :
    ∃ top below, machine.stack = top :: below ∧
      after.memo = machine.memo ++ [(machine.memo.length, top)] := by
  obtain ⟨last, opcode, executed, rfl⟩ :=
    step_eq_ok_of_readInstruction read success
  obtain ⟨_, top, below, stack, rfl⟩ :=
    execute_memoize_eq_ok_iff.mp executed
  rw [opened_of_readInstruction read] at stack
  refine ⟨top, below, stack, ?_⟩
  rw [recorded_memo, opened_of_readInstruction read]
  exact dense.insert_length top

theorem step_get {slot : Int}
    (read : readInstruction options.rules machine = .ok (.get slot) opened)
    (success : step options nested machine = .ok result after) :
    0 ≤ slot ∧ ∃ value, machine.memo.lookup slot.toNat = some value ∧
      after.stack = value :: machine.stack := by
  obtain ⟨last, opcode, executed, rfl⟩ :=
    step_eq_ok_of_readInstruction read success
  obtain ⟨_, value, natural, isHeld, rfl⟩ :=
    execute_get_eq_ok_iff.mp executed
  rw [opened_of_readInstruction read] at isHeld
  refine ⟨natural, value, isHeld, ?_⟩
  rw [recorded_stack, opened_of_readInstruction read]

theorem exists_step_get {slot : Int} {value : Value}
    (read : readInstruction options.rules machine = .ok (.get slot) opened)
    (natural : 0 ≤ slot)
    (isHeld : machine.memo.lookup slot.toNat = some value) :
    ∃ result after, step options nested machine = .ok result after := by
  obtain ⟨opcode, stepped⟩ := step_of_readInstruction read nested
  have heldThere : opened.memo.lookup slot.toNat = some value := by
    rw [opened_of_readInstruction read]
    exact isHeld
  have executed : execute options nested (.get slot) opened =
      .ok none { opened with stack := value :: opened.stack } :=
    execute_get_eq_ok_iff.mpr ⟨rfl, value, natural, heldThere, rfl⟩
  rw [executed] at stepped
  exact ⟨none, _, stepped⟩

/-- As long as no opcode names a slot beyond the memo, the slots are numbered
without a gap, in every pickle of the input and after every failure. No slot is
ever lost, and none is bound again by an opcode without a number. A slot gives
what was last bound to it, or the array that has since taken its place. -/
theorem Session.countsSlots {log : List Memo.Write}
    (session : Session options log machine) :
    CountsSlots options log machine where
  slots := session.isDense
  restarted := rfl
  kept _ bound := kept_advance bound
  isFree := session.isDense.lookup_length
  memoized read success := step_memoize session.isDense read success
  canFetch := by
    intro slot opened read
    constructor
    · rintro ⟨_, _, success⟩
      obtain ⟨natural, value, isHeld, _⟩ := step_get read success
      have isBound : (machine.memo.lookup slot.toNat).isSome = true := by
        rw [isHeld]
        rfl
      have below := session.isDense.isSome_lookup_iff.mp isBound
      exact ⟨natural, by omega⟩
    · rintro ⟨natural, below⟩
      have isBound : slot.toNat < machine.memo.length := by
        omega
      obtain ⟨value, isHeld⟩ := Option.isSome_iff_exists.mp
        (session.isDense.isSome_lookup_iff.mpr isBound)
      exact exists_step_get read natural isHeld
  fetched := by
    intro slot opened after result read success
    obtain ⟨_, value, isHeld, stack⟩ := step_get read success
    rw [session.lookup_memo] at isHeld
    exact ⟨value, isHeld, stack⟩

/-- A machine before a pickle that binds a list without a number and by the next
number, and then asks for a slot that is missing. -/
def missingSlot : Machine :=
  Machine.ofReader
    (.ofBytes [0x5D, 0x94, 0x71, 1, 0x68, 5, 0x68, 1]) .empty false

/-- The machine that goes on behind the failure, before it asks for a slot that
is bound. -/
def presentSlot : Machine :=
  (Nat.repeat (advance .standard) 4 missingSlot).restart

theorem countsSlots_presentSlot :
    presentSlot.memo.length = 2 ∧
      ∃ log, Session .standard log presentSlot ∧
        CountsSlots .standard log presentSlot := by
  have start : Session .standard [] missingSlot := .start _ _ _
  have first := start.step (by decide +kernel)
  have second := first.step (by decide +kernel)
  have third := second.step (by decide +kernel)
  have fourth := third.step (by decide +kernel)
  have session : Session .standard _ presentSlot := fourth.restart
  exact ⟨by decide +kernel, _, session, session.countsSlots⟩

end Execution

end PickleGraph
