import PickleGraph.Proofs.Framing.Machine
import PickleGraph.Proofs.Names.Payload

/-!
# Machines under other names

A machine does the same under other names: no instruction asks for the name of a
type or of a record, and what it makes is named like what it is made of. This
goes for whole pickles, also for the pickles inside.
-/

namespace PickleGraph

open Actions

/-- The machine over the heap under other names, with no record of its
moments. -/
def Machine.renamed (machine : Machine) (naming : Naming) : Machine :=
  { machine with
    source := machine.source.renamed naming
    history? := none }

namespace Execution

abbrev Transfers {α : Type} (action : Execution α) : Prop :=
  Actions.Transfers Machine.renamed action

namespace Transfers

variable {α β : Type}

theorem bind {action : Execution α} {next : α → Execution β}
    (first : Transfers action) (second : ∀ value, Transfers (next value)) :
    Transfers (action >>= next) :=
  Actions.Transfers.bind first second

theorem decoding {action : Decoding α} (transfers : action.Transfers) :
    Transfers (Execution.decoding action) := by
  intro machine result after success origin
  obtain ⟨source, decoded, rfl⟩ := decoding_eq_ok_iff.mp success
  obtain ⟨further, again⟩ :=
    transfers machine.source result source decoded origin
  exact ⟨further, fun names =>
    decoding_eq_ok_iff.mpr ⟨_, again names, rfl⟩⟩

/-- A look at the machine does not tell its names. -/
theorem get {next : Machine → Execution β}
    (same : ∀ (machine : Machine) (naming : Naming),
      next (machine.renamed naming) = next machine)
    (rest : ∀ machine, Transfers (next machine)) :
    Transfers (MonadState.get >>= next) := by
  intro machine result after success origin
  rw [get_bind] at success
  obtain ⟨further, again⟩ := rest machine machine result after success origin
  refine ⟨further, fun names => ?_⟩
  rw [get_bind, same]
  exact again names

theorem heap_bind {next : Heap → Execution β}
    (same : ∀ (heap : Heap) (naming : Naming),
      next (heap.renamed naming) = next heap)
    (rest : ∀ heap, Transfers (next heap)) :
    Transfers (Execution.heap >>= next) := by
  unfold Execution.heap
  rw [bind_assoc]
  exact .get (fun machine naming => same machine.heap naming)
    fun machine => rest machine.heap

theorem change {update : Machine → Machine}
    (commutes : ∀ (machine : Machine) (naming : Naming),
      update (machine.renamed naming) = (update machine).renamed naming) :
    Transfers (modify update : Execution Unit) := by
  rintro machine _ _ ⟨⟩ origin
  refine ⟨origin, fun names => ?_⟩
  exact congrArg (EStateM.Result.ok ()) (commutes machine _)

/-! ## The stack, the marks and the memo -/

theorem push (value : Value) : Transfers (Execution.push value) :=
  .change fun _ _ => rfl

theorem pushNew (object : Object) : Transfers (Execution.pushNew object) :=
  .bind (.decoding (.alloc object)) push

theorem pop : Transfers Execution.pop := by
  intro machine result after success origin
  refine ⟨origin, fun names => ?_⟩
  obtain ⟨source, stack, marks, memo, protocol, offset, history⟩ := machine
  cases stack with
  | nil => cases success
  | cons top rest =>
      cases success
      rfl

theorem peek : Transfers Execution.peek := by
  intro machine result after success origin
  refine ⟨origin, fun names => ?_⟩
  obtain ⟨source, stack, marks, memo, protocol, offset, history⟩ := machine
  cases stack with
  | nil => cases success
  | cons top rest =>
      cases success
      rfl

theorem popMany (count : Nat) : Transfers (Execution.popMany count) := by
  intro machine result after success origin
  refine ⟨origin, fun names => ?_⟩
  by_cases short : machine.stack.length < count
  · rw [popMany_of_lt short] at success
    cases success
  · rw [popMany_of_le short] at success
    cases success
    exact popMany_of_le short

theorem replaceTop (value : Value) : Transfers (Execution.replaceTop value) :=
  .bind pop fun _ => push value

theorem mark : Transfers Execution.mark :=
  .change fun _ _ => rfl

theorem popMark : Transfers Execution.popMark := by
  intro machine result after success origin
  refine ⟨origin, fun names => ?_⟩
  obtain ⟨source, stack, marks, memo, protocol, offset, history⟩ := machine
  cases marks with
  | nil => cases success
  | cons below rest =>
      cases success
      rfl

theorem memoGet (slot : Int) : Transfers (Execution.memoGet slot) := by
  refine .get (fun _ _ => rfl) fun machine => ?_
  dsimp only
  split
  · exact .pure _
  · split
    · exact .throw _
    · exact .throw _

theorem memoPut (slot : Nat) : Transfers (Execution.memoPut slot) :=
  .bind peek fun _ => .change fun _ _ => rfl

/-! ## Containers -/

theorem setObject (address : Address) {object : Object}
    (unnamed : ∀ key?, object.named key? = object) :
    Transfers (Execution.setObject address object) := by
  rintro machine _ _ ⟨⟩ origin
  refine ⟨origin, fun names => ?_⟩
  have set := Heap.renamed_set (origin.naming names) machine.heap address
    object
  rw [unnamed] at set
  show EStateM.Result.ok () (Machine.mk ⟨_, _⟩ _ _ _ _ _ _) = _
  unfold Machine.renamed Source.renamed
  dsimp only
  exact congrArg (fun heap => EStateM.Result.ok ()
    { machine with
      source := ⟨machine.source.reader, heap⟩
      history? := none }) set.symm

theorem checkHashable_renamed (naming : Naming) (heap : Heap)
    (items : List Value) :
    Execution.checkHashable (heap.renamed naming) items =
      Execution.checkHashable heap items := by
  unfold Execution.checkHashable
  simp only [Heap.hashable_renamed, Heap.typeName_renamed]

theorem checkHashable (heap : Heap) (items : List Value) :
    Transfers (Execution.checkHashable heap items) := by
  induction items with
  | nil => exact .pure _
  | cons item rest inductionHypothesis =>
      refine .bind ?_ fun _ => inductionHypothesis
      dsimp only
      split
      · exact .pure _
      · exact .throw _
      · exact .throw _

theorem checkReach (reach count : Nat) :
    Transfers (Execution.checkReach reach count) := by
  unfold Execution.checkReach
  split
  · exact .pure _
  · exact .throw _

theorem entriesOf (items : List Value) :
    Transfers (Execution.entriesOf items) := by
  unfold Execution.entriesOf
  split
  · exact .throw _
  · refine .heap_bind (fun heap naming => ?_) fun heap => ?_
    · rw [checkHashable_renamed]
    · exact .bind (checkHashable heap _) fun _ => .pure _

/-- What is done with the object on top of the stack does not depend on its
name. -/
theorem peekObject {next : Option (Address × Object) → Execution β}
    (same : ∀ address object key?,
      next (some (address, object.named key?)) =
        next (some (address, object)))
    (rest : ∀ target, Transfers (next target)) :
    Transfers (peekObject? >>= next) := by
  unfold peekObject?
  rw [bind_assoc]
  refine .bind peek fun top => ?_
  cases top with
  | object address =>
      dsimp only
      rw [bind_assoc]
      refine .heap_bind (fun heap naming => ?_) fun heap => ?_
      · rw [Heap.get_renamed, pure_bind, pure_bind]
        exact same address (heap.get address) (naming address)
      · rw [pure_bind]
        exact rest _
  | _ =>
      dsimp only
      rw [pure_bind]
      exact rest none

theorem wrongTarget (opcode : Opcode) :
    Transfers (Execution.wrongTarget opcode : Execution α) :=
  .of_fails (.bind fun _ => .bind fun _ => .throw _)

theorem extendList (opcode : Opcode) (items : List Value) :
    Transfers (Execution.extendList opcode items) := by
  refine .peekObject (fun address object key? => ?_) fun target => ?_
  · cases object <;> rfl
  · split
    · exact setObject _ fun _ => rfl
    · exact wrongTarget opcode

theorem extendDict (opcode : Opcode) (items : List Value) :
    Transfers (Execution.extendDict opcode items) := by
  refine .peekObject (fun address object key? => ?_) fun target => ?_
  · cases object <;> rfl
  · split
    · refine .bind (entriesOf items) fun entries => ?_
      exact .bind (setObject _ fun _ => rfl) fun _ => checkReach _ _
    · exact wrongTarget opcode

theorem extendSet (items : List Value) :
    Transfers (Execution.extendSet items) := by
  refine .peekObject (fun address object key? => ?_) fun target => ?_
  · cases object <;> rfl
  · split
    · refine .heap_bind (fun heap naming => ?_) fun heap => ?_
      · rw [checkHashable_renamed]
      · refine .bind (checkHashable heap items) fun _ => ?_
        exact .bind (setObject _ fun _ => rfl) fun _ => checkReach _ _
    · exact wrongTarget .addItems

/-! ## Types and instances -/

theorem pushType (registry : Registry) (module name : Text) :
    Transfers (Execution.pushType registry module name) := by
  unfold Execution.pushType
  split
  · exact pushNew _
  · exact .throw _

theorem instantiate (type : Value) (call : Call) :
    Transfers (Execution.instantiate type call) :=
  .decoding (.build fun heap origin => heap.tracks_instantiate origin type call)

theorem argumentsOf (opcode : Opcode) (value : Value) :
    Transfers (Execution.argumentsOf opcode value) := by
  unfold Execution.argumentsOf
  split
  · exact .pure _
  · exact .throw _

theorem instantiateNamed (registry : Registry) (module name : Text) :
    Transfers (Execution.instantiateNamed registry module name) := by
  unfold Execution.instantiateNamed
  split
  · exact .throw _
  · refine .bind popMark fun args => ?_
    refine .bind (.decoding (.alloc _)) fun type => ?_
    exact .bind (instantiate type _) fun _ => .pure _

/-! ## Buffers and the end -/

theorem protectTop : Transfers Execution.protectTop := by
  have showTop : ∀ view, Transfers (protectTop.showTop view) :=
    fun view => .bind (.decoding (.alloc _)) replaceTop
  refine .bind peek fun top => ?_
  split
  · exact .pure _
  · next address =>
      refine .heap_bind (fun heap naming => ?_) fun heap => ?_
      · rw [Heap.get_renamed]
        cases heap.get address <;> rfl
      · split
        · exact showTop _
        · exact .pure _
        · split
          · exact wrongTarget _
          · split
            · exact .throw _
            · split
              · exact showTop _
              · exact .pure _
        · exact wrongTarget _
  · exact wrongTarget _

theorem finish : Transfers Execution.finish := by
  refine .get (fun _ _ => rfl) fun machine => ?_
  split
  · exact .throw _
  · split
    · exact .throw _
    · exact pop

end Transfers

/-! ## States -/

/-- A record that has been given a state is called what it was called before. -/
theorem applyToTop_renamed {machine after : Machine}
    {target : Address × Record} (naming : Naming)
    (applied : applyToTop machine = .ok target after) :
    applyToTop (machine.renamed naming) =
      .ok (target.1, target.2.named (naming target.1))
        (after.renamed naming) := by
  obtain ⟨state, rest, record, stack, isRecord, filled, rfl⟩ :=
    applyToTop_eq_ok applied
  have here : (machine.renamed naming).heap.get target.1 =
      .record (record.named (naming target.1)) := by
    show (machine.heap.renamed naming).get target.1 = _
    rw [Heap.get_renamed, isRecord]
    rfl
  have again : (record.named (naming target.1)).applyState
      (machine.renamed naming).heap state =
        .ok (target.2.named (naming target.1)) := by
    show (record.named _).applyState (machine.heap.renamed naming) state = _
    rw [Record.applyState_renamed, filled]
    rfl
  have sameStack : (machine.renamed naming).stack =
      state :: .object target.1 :: rest := stack
  rw [applyToTop_of_eq sameStack here again]
  unfold Machine.renamed Source.renamed
  dsimp only
  rw [Heap.renamed_set]
  rfl

section Steps

variable {options : Options} {nested : Decoding Value}
variable (nestedTransfers : nested.Transfers)

include nestedTransfers

theorem transfers_fillPlaceholder (address : Address) (record : Record) :
    Transfers (fillPlaceholder options nested address record) := by
  unfold fillPlaceholder
  split
  · refine .bind (.decoding (transfers_materialize nestedTransfers _ record))
      fun array => ?_
    exact .bind (.replaceTop array) fun _ => .change fun _ _ => rfl
  · exact .pure _

omit nestedTransfers in
/-- The name of a placeholder does not matter for its array. -/
theorem fillPlaceholder_named (address : Address) (record : Record)
    (key? : Option TypeKey) {machine after : Machine}
    (success : fillPlaceholder options nested address record machine =
      .ok () after) :
    fillPlaceholder options nested address (record.named key?) machine =
      .ok () after := by
  unfold fillPlaceholder at success ⊢
  rw [Record.strategy_named]
  cases strategy : record.strategy with
  | array target layout =>
      rw [strategy] at success
      obtain ⟨array, middle, read, replaced⟩ := bind_eq_ok_iff.mp success
      obtain ⟨source, materialized, rfl⟩ := decoding_eq_ok_iff.mp read
      have again := materialize_named layout record key? materialized
      exact (bind_of_eq_ok
        (decoding_eq_ok_iff.mpr ⟨source, again, rfl⟩)).trans replaced
  | _ =>
      rw [strategy] at success
      exact success

theorem transfers_giveState : Transfers (giveState options nested) := by
  intro machine result after success origin
  rw [giveState_eq] at success ⊢
  obtain ⟨⟨address, record⟩, middle, applied, filled⟩ :=
    bind_eq_ok_iff.mp success
  obtain ⟨further, again⟩ := transfers_fillPlaceholder nestedTransfers
    address record middle result after filled origin
  refine ⟨further, fun names => ?_⟩
  rw [bind_of_eq_ok (applyToTop_renamed _ applied)]
  exact fillPlaceholder_named address record _ (again names)

/-! ## Instructions -/

theorem transfers_execute (instruction : Instruction) :
    Transfers (execute options nested instruction) := by
  have proceed : ∀ {action : Execution Unit}, Transfers action →
      Transfers (execute.proceed action) :=
    fun transfers => .bind transfers fun _ => .pure _
  cases instruction with
  | stop => exact .bind .finish fun value => .pure _
  | protocol version => exact proceed (.change fun _ _ => rfl)
  | frame size => exact proceed (.decoding (.reading _))
  | push value => exact proceed (.push value)
  | pushFloat number =>
      refine proceed (.bind (.decoding ?_) fun value => .push value)
      refine .make fun naming heap => ?_
      rw [Heap.carry_float]
      exact .ok _
  | pushObject object => exact proceed (.pushNew object)
  | mark => exact proceed .mark
  | pop =>
      refine proceed (.get (fun _ _ => rfl) fun machine => ?_)
      split
      · exact .bind .popMark fun _ => .pure _
      · exact .bind .pop fun _ => .pure _
  | popMark => exact proceed (.bind .popMark fun _ => .pure _)
  | dup => exact proceed (.bind .peek .push)
  | list => exact proceed (.bind .popMark fun items => .pushNew _)
  | dict =>
      refine proceed (.bind .popMark fun items => ?_)
      refine .bind (.entriesOf items) fun entries => ?_
      exact .bind (.checkReach _ _) fun _ => .pushNew _
  | tuple => exact proceed (.bind .popMark fun items => .push _)
  | frozenSet =>
      refine proceed (.bind .popMark fun items => ?_)
      refine .heap_bind (fun heap naming => ?_) fun heap => ?_
      · rw [Transfers.checkHashable_renamed]
      · refine .bind (.checkHashable heap items) fun _ => ?_
        exact .bind (.checkReach _ _) fun _ => .push _
  | tupleOf size => exact proceed (.bind (.popMany size) fun _ => .push _)
  | append => exact proceed (.bind .pop fun value => .extendList _ _)
  | appends => exact proceed (.bind .popMark fun items => .extendList _ _)
  | setItem =>
      exact proceed (.bind .pop fun value =>
        .bind .pop fun key => .extendDict _ _)
  | setItems => exact proceed (.bind .popMark fun items => .extendDict _ _)
  | addItems => exact proceed (.bind .popMark .extendSet)
  | get slot => exact proceed (.bind (.memoGet slot) .push)
  | put slot =>
      refine proceed ?_
      split
      · exact .throw _
      · exact .memoPut _
  | memoize =>
      exact proceed (.get (fun _ _ => rfl) fun machine => .memoPut _)
  | «global» module name => exact proceed (.pushType _ _ _)
  | stackGlobal =>
      refine proceed (.bind .pop fun name => .bind .pop fun module => ?_)
      split
      · exact .pushType _ _ _
      · exact .throw _
  | inst module name => exact proceed (.instantiateNamed _ _ _)
  | obj =>
      refine proceed (.bind .popMark fun items => ?_)
      split
      · exact .throw _
      · exact .bind (.instantiate _ _) .push
  | newObj =>
      refine proceed (.bind .pop fun args => .bind .pop fun type => ?_)
      exact .bind (.argumentsOf _ args) fun args =>
        .bind (.instantiate _ _) .push
  | newObjEx =>
      refine proceed (.bind .pop fun named => .bind .pop fun args => ?_)
      refine .bind .pop fun type => ?_
      refine .heap_bind (fun heap naming => ?_) fun heap => ?_
      · rw [Heap.entries?_renamed]
      · split
        · exact .bind (.instantiate _ _) .push
        · exact .throw _
  | reduce =>
      refine proceed (.bind .pop fun args => .bind .peek fun type => ?_)
      exact .bind (.argumentsOf _ args) fun args =>
        .bind (.instantiate _ _) .replaceTop
  | build => exact proceed (transfers_giveState nestedTransfers)
  | readonlyBuffer => exact proceed .protectTop

theorem transfers_perform (opcode : Opcode) :
    Transfers (perform options nested opcode) := by
  have direct := Instruction.direct_ofOpcode options.rules opcode
  refine .bind (.decoding direct.transfers) fun instruction => ?_
  refine .bind (transfers_execute nestedTransfers instruction)
    fun result => ?_
  dsimp only
  split
  · exact .bind (.change fun _ _ => rfl) fun _ => .pure _
  · exact .pure _

omit nestedTransfers in
theorem readOpcode_renamed {machine after : Machine} {opcode : Opcode}
    (naming : Naming) (success : readOpcode machine = .ok opcode after) :
    readOpcode (machine.renamed naming) =
      .ok opcode (after.renamed naming) := by
  obtain ⟨data, source, read, known, rfl⟩ := readOpcode_eq_ok_iff.mp success
  have again : Decoding.read 1 (machine.renamed naming).source =
      .ok data (source.renamed naming) :=
    (Decoding.Direct.read 1).renamed naming read
  exact readOpcode_eq_ok_iff.mpr
    ⟨data, source.renamed naming, again, known, rfl⟩

theorem transfers_step : Transfers (step options nested) :=
  .bind (fun _ _ _ success origin =>
      ⟨origin, fun _ => readOpcode_renamed _ success⟩)
    (transfers_perform nestedTransfers)

end Steps

/-! ## Pickles -/

theorem transfers_placed {α : Type} {action : Execution α}
    (transfers : Transfers action) : Transfers (placed action) := by
  intro machine result after success origin
  obtain ⟨further, again⟩ :=
    transfers machine result after (placed_eq_ok_iff.mp success) origin
  exact ⟨further, fun names => placed_eq_ok_iff.mpr (again names)⟩

theorem transfers_inside {action : Execution Value}
    (transfers : Transfers action) : (inside action).Transfers := by
  intro source value after success origin
  obtain ⟨machine, finished, rfl⟩ := inside_eq_ok_iff.mp success
  obtain ⟨further, again⟩ := transfers _ value machine finished origin
  exact ⟨further, fun names =>
    inside_eq_ok_iff.mpr ⟨_, again names, rfl⟩⟩

theorem transfers_run (steps : Nat) (options : Options) :
    Transfers (run steps options) := by
  induction steps generalizing options with
  | zero => exact transfers_placed (.throw _)
  | succ steps inductionHypothesis =>
      rw [run_succ]
      refine .bind (transfers_placed (transfers_step
        (transfers_inside (inductionHypothesis _)))) fun result => ?_
      cases result with
      | some value => exact .pure value
      | none => exact inductionHypothesis options

theorem transfers_runToEnd (options : Options) :
    Transfers (runToEnd options) :=
  fun machine => transfers_run (machine.size + 1) options machine

theorem transfers_nestedPickle (options : Options) :
    (nestedPickle options).Transfers :=
  transfers_inside (transfers_runToEnd _)

end Execution

end PickleGraph
