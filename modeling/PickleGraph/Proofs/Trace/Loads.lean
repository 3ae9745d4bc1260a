import PickleGraph.Proofs.Machine.Governed
import PickleGraph.Proofs.Names.Listing
import PickleGraph.Proofs.Trace.Offset

/-!
# Several pickles of one input

A machine may be asked for one pickle after the other. Over all of them it sees
its opcodes at growing places, each at its byte, and executes no more of them than
there are bytes.
-/

/-!
## How many opcodes are executed

Every opcode takes a byte of its own, in whatever pickle it stands: what a pickle
inside has read, the pickle around it does not read again. So there are no more
opcodes than bytes.
-/

namespace PickleGraph

open Actions

/-! ## Behind a pickle inside -/

namespace Payload

/-- What is made of the value of a pickle inside. -/
def rebuildFound (value : Value) : Decoding Value := do
  match (← Decoding.heap).record? value with
  | some (_, record) =>
      if record.kind = .ndarray then
        allocArray (← Decoding.build (·.arrayOfRecord record))
      else
        return value
  | none => return value

theorem parallel_rebuildFound {nested : Decoding Value} (value : Value) :
    Decoding.Parallel nested nested (rebuildFound value)
      (rebuildFound value) := by
  refine .bind .heap fun heap => ?_
  split
  · split
    · exact .bind (.build fun heap => Heap.growsTo_arrayOfRecord heap _)
        fun array => parallel_allocArray array
    · exact .pure _
  · exact .pure _

theorem parallel_acceptArray {nested : Decoding Value} (value : Value) :
    Decoding.Parallel nested nested (acceptArray value)
      (acceptArray value) := by
  refine .bind .heap fun heap => ?_
  split
  · exact .pure _
  · exact .bind .heap fun heap => .tell fun _ _ => .throw _ _

/-- What a pickle inside gives is made into an array. Nothing is read for that,
or for a failure. -/
theorem readOn_readNested {nested : Decoding Value}
    (nestedMoves : Moves Source.ReadOn nested) (source : Source) :
    (finalState (nested source)).ReadOn
      (finalState (readNested nested source)) := by
  have found : (finalState (nested source)).ReadOn
      (finalState (nestedValue nested source)) :=
    Moves.bind_from (refl_of Source.ReadOn _) fun value =>
      (parallel_rebuildFound value).moves Source.admits_readOn nestedMoves
  rw [readNested_eq]
  refine Moves.bind_from ?_ fun value =>
    (parallel_acceptArray value).moves Source.admits_readOn nestedMoves
  unfold Decoding.mapFailure
  split <;> next outcome =>
    rw [outcome] at found
    exact found

/-- A placeholder that awaits no pickle is read without one. -/
theorem readInline_of_not_awaitsPickle {record : Record} {source : Source}
    {name : Text} (isArray : record.strategy = .array name .inline)
    (noPickle : awaitsPickle record source = false)
    (nested other : Decoding Value) :
    readInline names record nested source =
      readInline names record other source := by
  by_cases isEmpty :
      record.field? "dtype" = none ∨ record.field? "shape" = none
  · rw [readInline_of_header isEmpty, readInline_of_header isEmpty]
  obtain ⟨noType, noShape⟩ := not_or.mp isEmpty
  obtain ⟨type, hasType⟩ := Option.ne_none_iff_exists'.mp noType
  obtain ⟨shape, hasShape⟩ := Option.ne_none_iff_exists'.mp noShape
  rw [readInline_of_fields hasType hasShape,
    readInline_of_fields hasType hasShape]
  refine bind_congr rfl fun element middle typed => ?_
  obtain ⟨isType, rfl⟩ := query_eq_ok_iff.mp typed
  refine bind_congr rfl fun place middle told => ?_
  cases told
  refine bind_congr rfl fun extents middle checked => ?_
  obtain ⟨isShape, rfl⟩ := checkShape_eq_ok_iff.mp checked
  refine bind_congr rfl fun firstFastest middle ordered => ?_
  have isRaw : element.hasObject = false := by
    unfold awaitsPickle at noPickle
    rw [isArray, hasType, hasShape] at noPickle
    dsimp only at noPickle
    rw [isType, ordered, isShape] at noPickle
    simpa only [Option.isSome_some, Bool.and_true] using noPickle
  unfold readAnnounced
  rw [isRaw]
  rfl

end Payload

namespace Execution

variable {options : Options} {nested other : Decoding Value}
variable {machine middle ready inner : Machine}
variable {target : Address × Record} {opcode : Opcode}

/-- Behind a pickle inside, its opcode goes on where the pickle has ended. -/
theorem OpensInside.readOn (opens : OpensInside machine ready target)
    (nestedMoves : Moves Source.ReadOn nested)
    (read : readOpcode machine = .ok .build middle) :
    (finalState (nested ready.source)).ReadOn
      (finalState (perform options nested .build middle)).source := by
  obtain ⟨middle', readAgain, applied⟩ := opens.isOpened
  obtain rfl : middle = middle' :=
    (EStateM.Result.ok.inj (read.symm.trans readAgain)).2
  obtain ⟨name, isArray⟩ := opens.isArray
  have materialized : Machine.ReadOn
      { ready with source := finalState (nested ready.source) }
      (finalState (decoding
        (materialize options nested .inline target.2) ready)) := by
    have readOn := Payload.readOn_readNested nestedMoves ready.source
    rw [← opens.materialize_eq] at readOn
    unfold decoding
    split <;> next outcome =>
      rw [outcome] at readOn
      exact readOn
  have filled : Machine.ReadOn
      { ready with source := finalState (nested ready.source) }
      (finalState
        (fillPlaceholder options nested target.1 target.2 ready)) := by
    unfold fillPlaceholder
    rw [isArray]
    exact Moves.bind_from materialized fun array =>
      (Stationary.putArray target.1 array).readOn
  have given : Machine.ReadOn
      { ready with source := finalState (nested ready.source) }
      (finalState (giveState options nested middle)) := by
    rw [giveState_eq, bind_of_eq_ok applied]
    exact filled
  have executed : Machine.ReadOn
      { ready with source := finalState (nested ready.source) }
      (finalState (execute options nested .build middle)) :=
    Moves.bind_from given fun _ => .pure _
  refine Moves.bind_from executed fun result => ?_
  dsimp only
  split
  · exact .bind (fun machine => refl_of Machine.ReadOn machine)
      fun _ => .pure _
  · exact .pure _

/-- A step that asks for a pickle inside asks for this one. -/
theorem Consults.machineInside {source : Source}
    (consults : Consults options machine source) :
    machineInside? machine =
      some (Machine.ofReader source.reader source.heap false) := by
  obtain ⟨middle, target, last, read, applied, rfl⟩ := consults.exists_build
  obtain ⟨other, elsewhere, differ⟩ := consults
  have found : machineInside? machine =
      if Payload.awaitsPickle target.2 last.source then
        some (Machine.ofReader last.source.reader last.heap false)
      else
        none := by
    unfold machineInside?
    rw [read]
    dsimp only
    rw [applied]
  rw [found, if_pos]
  · rfl
  refine Classical.byContradiction fun noPickle => differ ?_
  rw [Bool.not_eq_true] at noPickle
  rw [step_eq, step_eq, bind_of_eq_ok read, bind_of_eq_ok read]
  refine bind_congr rfl fun instruction further argued => ?_
  cases argued
  refine bind_congr ?_ fun _ _ _ => rfl
  refine bind_congr ?_ fun _ _ _ => rfl
  rw [giveState_eq, giveState_eq, bind_of_eq_ok applied,
    bind_of_eq_ok applied]
  show fillPlaceholder options other target.1 target.2 last =
    fillPlaceholder options _ target.1 target.2 last
  unfold fillPlaceholder
  cases isArray : target.2.strategy with
  | array name layout =>
      refine bind_congr (decoding_congr ?_) fun _ _ _ => rfl
      cases layout with
      | inline =>
          exact Payload.readInline_of_not_awaitsPickle isArray noPickle _ _
      | sibling => rfl
  | _ => rfl

/-! ## Counting -/

/-- How many opcodes are executed until the pickle ends or fails, with those of
the pickles inside. -/
def executed (options : Options) (machine : Machine) : Nat :=
  match _read : readOpcode machine with
  | .error _ _ => 0
  | .ok opcode middle =>
      let within :=
        match _found : machineInside? machine with
        | some inner => executed (nestedOptions options) inner
        | none => 0
      match _performed :
          perform options (nestedPickle options) opcode middle with
      | .ok none after => within + 1 + executed options after
      | .ok (some _) _ | .error _ _ => within + 1
termination_by machine.size
decreasing_by
  · obtain ⟨ready, target, opens, rfl⟩ := exists_opensInside _found
    exact opens.size_lt
  · have stepped : step options (nestedPickle options) machine =
        .ok none after := by
      rw [step_eq, bind_of_eq_ok _read, _performed]
    exact size_step (readOn_nestedPickle options) stepped

/-- How many opcodes the pickle inside the next opcode executes. -/
def executedInside (options : Options) (machine : Machine) : Nat :=
  match machineInside? machine with
  | some inner => executed (nestedOptions options) inner
  | none => 0

theorem executed_of_unread {failure : Failure}
    (read : readOpcode machine = .error failure after) :
    executed options machine = 0 := by
  rw [executed]
  split
  · rfl
  · next readOk =>
      rw [read] at readOk
      cases readOk

theorem executed_of_read (read : readOpcode machine = .ok opcode middle) :
    executed options machine =
      executedInside options machine + 1 +
        match perform options (nestedPickle options) opcode middle with
        | .ok none after => executed options after
        | .ok (some _) _ | .error _ _ => 0 := by
  have inside :
      (match _found : machineInside? machine with
        | some inner => executed (nestedOptions options) inner
        | none => 0) = executedInside options machine := by
    unfold executedInside
    cases machineInside? machine <;> rfl
  rw [executed]
  split
  · next failure after unread =>
      rw [read] at unread
      cases unread
  · next other further readAgain =>
      cases read.symm.trans readAgain
      dsimp only
      rw [inside]
      split <;> next performed => simp only [performed, Nat.add_zero]

theorem size_inside_le (action : Execution Value) (source : Source) :
    (finalState (inside action source)).size ≤
      (finalState (action
        (Machine.ofReader source.reader source.heap false))).size := by
  unfold inside
  split <;> next outcome =>
    rw [outcome]
    exact (readOn_beneath _).remaining

/-- The rest of an opcode leaves no more than the pickle inside has left. -/
theorem OpensInside.size_le (opens : OpensInside machine ready target)
    (read : readOpcode machine = .ok .build middle) (options : Options) :
    (finalState (perform options (nestedPickle options) .build
        middle)).size ≤
      (finalState (runToEnd (nestedOptions options)
        (Machine.ofReader ready.source.reader ready.heap false))).size := by
  have behind : (finalState (nestedPickle options ready.source)).ReadOn
      (finalState (perform options (nestedPickle options) .build
        middle)).source := opens.readOn (readOn_nestedPickle options) read
  exact Nat.le_trans behind.remaining (size_inside_le _ ready.source)

/-- What is executed inside an opcode and what is left behind it have been there
before. -/
theorem executedInside_add_size_le (read : readOpcode machine = .ok opcode middle)
    (inside : ∀ inner, machineInside? machine = some inner →
      executed (nestedOptions options) inner +
        (finalState (runToEnd (nestedOptions options) inner)).size ≤
      inner.size) :
    executedInside options machine +
      (finalState (perform options (nestedPickle options) opcode
        middle)).size ≤ middle.size := by
  unfold executedInside
  cases found : machineInside? machine with
  | none =>
      have moves : Moves Machine.ReadOn
          (perform options (nestedPickle options) opcode) :=
        readOn_perform (readOn_nestedPickle options) opcode
      exact (Nat.zero_add _).trans_le (moves middle).remaining
  | some inner =>
      obtain ⟨ready, target, opens, rfl⟩ := exists_opensInside found
      obtain ⟨other, readBuild, _⟩ := opens.isOpened
      obtain ⟨rfl, rfl⟩ : opcode = .build ∧ middle = other := by
        cases read.symm.trans readBuild
        exact ⟨rfl, rfl⟩
      have innerSize :
          (Machine.ofReader ready.source.reader ready.heap false).size =
            middle.size := by
        show ready.source.reader.remaining + 0 = _
        rw [opens.reader_eq read]
        rfl
      have left := opens.size_le read options
      have bound := inside _ found
      dsimp only
      omega

/-- No byte is read for two opcodes. -/
theorem executed_add_size_le (options : Options) (machine : Machine) :
    executed options machine +
      (finalState (runToEnd options machine)).size ≤ machine.size := by
  induction size : machine.size using Nat.strongRecOn
    generalizing options machine with
  | ind size inductionHypothesis =>
      subst size
      cases read : readOpcode machine with
      | error failure after =>
          have moved := (readOn_runToEnd options machine).remaining
          exact executed_of_unread read ▸ (Nat.zero_add _).trans_le moved
      | ok opcode middle =>
          have smaller : middle.size < machine.size :=
            remaining_readOpcode read
          have within := executedInside_add_size_le read
            fun inner found => by
              obtain ⟨ready, target, opens, rfl⟩ := exists_opensInside found
              exact inductionHypothesis _ opens.size_lt
                (nestedOptions options) _ rfl
          rw [executed_of_read read]
          cases performed :
              perform options (nestedPickle options) opcode middle with
          | error failure after =>
              rw [performed] at within
              have left : after.size + _ ≤ _ :=
                (Nat.add_comm _ _).trans_le within
              rw [runToEnd_of_error read performed]
              show _ + 1 + 0 + after.size ≤ _
              omega
          | ok result after =>
              have stepped : step options (nestedPickle options) machine =
                  .ok result after := (bind_of_eq_ok read).trans performed
              rw [performed] at within
              have left : after.size + _ ≤ _ :=
                (Nat.add_comm _ _).trans_le within
              cases result with
              | none =>
                  have later := inductionHypothesis _
                    (size_step (readOn_nestedPickle options) stepped)
                    options _ rfl
                  rw [runToEnd_of_step stepped]
                  dsimp only
                  omega
              | some value =>
                  rw [runToEnd_of_finish stepped]
                  show _ + 1 + 0 + after.size ≤ _
                  omega

end Execution

end PickleGraph

namespace PickleGraph

open Actions

namespace Machine

/-- The machine after it has been asked for so many pickles. -/
def afterLoads (options : Options) (machine : Machine) : Nat → Machine
  | 0 => machine
  | count + 1 =>
      finalState (Machine.load options (machine.afterLoads options count))

/-- A machine before a byte string that records what it does. -/
def recording (content : Bytes) : Machine :=
  .ofReader (.ofBytes content) .empty true

/-- How many opcodes are executed for so many pickles, with those of the pickles
inside. -/
def executedBy (options : Options) (machine : Machine) : Nat → Nat
  | 0 => 0
  | count + 1 =>
      machine.executedBy options count +
        Execution.executed options
          (machine.afterLoads options count).restart

variable {content : Bytes} {options : Options} {machine : Machine}

theorem isTraced_recording (content : Bytes) :
    (recording content).IsTraced content :=
  ⟨[], .bare 0 rfl, .nil content 0⟩

/-- Between two pickles the rest of a frame is given up. -/
theorem IsTraced.restart (isTraced : machine.IsTraced content) :
    machine.restart.IsTraced content := by
  obtain ⟨given, hasGiven, isTrace⟩ := isTraced
  obtain ⟨lost, lostGiven⟩ := hasGiven.dropFrame
  refine ⟨given ++ lost, lostGiven, isTrace.mono ?_⟩
  rw [List.length_append]
  exact Nat.le_add_right _ _

theorem size_restart_le (machine : Machine) :
    machine.restart.size ≤ machine.size := by
  show machine.source.reader.dropFrame.remaining ≤
    machine.source.reader.remaining
  cases machine.source.reader with
  | file | cursor => exact Nat.le_refl _
  | unframer below position frame => exact Nat.le_add_right _ _

/-- A pickle that is asked for leaves what it has not executed. -/
theorem executedBy_add_size_le (options : Options) (machine : Machine)
    (count : Nat) :
    machine.executedBy options count +
      (machine.afterLoads options count).size ≤ machine.size := by
  induction count with
  | zero => exact (Nat.zero_add _).le
  | succ count inductionHypothesis =>
      have executes := Execution.executed_add_size_le options
        (machine.afterLoads options count).restart
      have restarts := (machine.afterLoads options count).size_restart_le
      rw [← Execution.load_eq] at executes
      show machine.executedBy options count +
        Execution.executed options
          (machine.afterLoads options count).restart +
        (finalState (Machine.load options
          (machine.afterLoads options count))).size ≤ machine.size
      omega

theorem IsTraced.load (isTraced : machine.IsTraced content)
    (options : Options) :
    (finalState (Machine.load options machine)).HasTraced content ∧
      (succeeds (Machine.load options machine) = true →
        (finalState (Machine.load options machine)).IsTraced content) := by
  obtain ⟨hasTraced, ends⟩ :=
    Execution.isTraced_runToEnd options isTraced.restart
  rw [Execution.load_eq]
  refine ⟨hasTraced, fun success => ?_⟩
  cases outcome : Execution.runToEnd options machine.restart with
  | ok value after => exact ends value after outcome
  | error failure after =>
      rw [outcome] at success
      cases success

theorem IsTraced.afterLoads (isTraced : machine.IsTraced content)
    {count : Nat}
    (succeed : ∀ earlier < count, succeeds (Machine.load options
      (machine.afterLoads options earlier)) = true) :
    (machine.afterLoads options count).IsTraced content := by
  induction count with
  | zero => exact isTraced
  | succ count inductionHypothesis =>
      have traced := inductionHypothesis fun earlier less =>
        succeed earlier (Nat.lt_succ_of_lt less)
      exact (traced.load options).2 (succeed count (Nat.lt_succ_self count))

/-- A machine is asked for pickles of a byte string, and all of them but the last
are known to be decoded. What it records has growing places, at each of which
there is the byte of the opcode. The opcodes that it executes are no more than
the bytes, and no bound on their number beyond that changes how the last pickle
ends. -/
theorem trace_afterLoads (options : Options) (content : Bytes) (count : Nat)
    (succeed : ∀ earlier < count, succeeds (Machine.load options
      ((recording content).afterLoads options earlier)) = true) :
    let final := (recording content).afterLoads options (count + 1)
    (final.history.map Moment.offset).Pairwise (· < ·) ∧
      (∀ moment ∈ final.history,
        content[moment.offset]? = some moment.opcode.code) ∧
      (recording content).executedBy options (count + 1) ≤
        content.length ∧
      ∀ steps, content.length < steps →
        Execution.run steps options
            ((recording content).afterLoads options count).restart =
          Machine.load options
            ((recording content).afterLoads options count) := by
  have isTraced := (isTraced_recording content).afterLoads succeed
  obtain ⟨place, isTrace⟩ := (isTraced.load options).1
  have start : (recording content).size = content.length := rfl
  refine ⟨?_, fun moment member => ?_, ?_, fun steps enough => ?_⟩
  · rw [List.pairwise_map]
    exact List.pairwise_reverse.mpr isTrace.ordered
  · exact isTrace.coded moment (List.mem_reverse.mp member)
  · have bound :=
      executedBy_add_size_le options (recording content) (count + 1)
    omega
  · have bound := executedBy_add_size_le options (recording content) count
    have restarts := ((recording content).afterLoads options
      count).size_restart_le
    rw [Execution.load_eq]
    exact Execution.run_eq_run (by omega) (Nat.lt_succ_self _)

/-- A pickle without frames, one in a frame, and one that fails. -/
def threePickles : Bytes :=
  [0x4E, 0x2E, 0x95, 2, 0, 0, 0, 0, 0, 0, 0, 0x88, 0x2E, 0x4E, 0x86]

theorem trace_threePickles :
    (∀ earlier < 2, succeeds (Machine.load .standard
      ((recording threePickles).afterLoads .standard earlier)) = true) ∧
    let final := (recording threePickles).afterLoads .standard 3
    final.history.map Moment.offset = [0, 2, 11, 13] ∧
      (final.history.map Moment.offset).Pairwise (· < ·) ∧
      (∀ moment ∈ final.history,
        threePickles[moment.offset]? = some moment.opcode.code) ∧
      (recording threePickles).executedBy .standard 3 ≤
        threePickles.length ∧
      ∀ steps, threePickles.length < steps →
        Execution.run steps .standard
            ((recording threePickles).afterLoads .standard 2).restart =
          Machine.load .standard
            ((recording threePickles).afterLoads .standard 2) := by
  have succeed : ∀ earlier < 2, succeeds (Machine.load .standard
      ((recording threePickles).afterLoads .standard earlier)) = true := by
    decide +kernel
  exact ⟨succeed, by decide +kernel,
    trace_afterLoads .standard threePickles 2 succeed⟩

end Machine

end PickleGraph
