import PickleGraph.Proofs.Decoding.Failure
import PickleGraph.Proofs.Machine.Stationary

/-!
# What instructions demand of the stack

An abstract machine knows how many values are on the stack and on each of the
stacks set aside, and nothing else. Every opcode makes a demand on these numbers
that depends on the opcode alone: either they do not meet it and the instruction
fails with a defect, or they do and the instruction changes them as demanded
unless it fails for another reason.
-/

namespace PickleGraph

open Actions

/-! ## The abstract machine -/

/-- How many values are on the stack, and on each of the stacks set aside. -/
structure Depths where
  stack : Nat
  aside : List Nat
  deriving DecidableEq, Repr

def Machine.depths (machine : Machine) : Depths :=
  ⟨machine.stack.length, machine.marks.map List.length⟩

/-- What an opcode asks of the depths. -/
inductive Demand
  /-- Values are taken off the stack, and others are left in their place. -/
  | values (taken left : Nat)
  /-- The stack is set aside. -/
  | mark
  /-- A value is taken or, where there is none, the last mark. -/
  | pop
  /-- The last mark is taken with the values above it, of which there must be
  some; then values below it are taken, and others are left. -/
  | close (within taken left : Nat)
  /-- One value remains and no mark. -/
  | stop
  /-- The opcode is not supported. -/
  | never
  deriving DecidableEq, Repr

namespace Demand

/-- The depths after an opcode, unless they do not meet its demand. -/
def apply : Demand → Depths → Option Depths
  | values taken left, ⟨stack, aside⟩ =>
      if taken ≤ stack then some ⟨stack - taken + left, aside⟩ else none
  | mark, ⟨stack, aside⟩ => some ⟨0, stack :: aside⟩
  | pop, ⟨stack + 1, aside⟩ => some ⟨stack, aside⟩
  | pop, ⟨0, outer :: aside⟩ => some ⟨outer, aside⟩
  | pop, ⟨0, []⟩ => none
  | close within taken left, ⟨stack, outer :: aside⟩ =>
      if within ≤ stack ∧ taken ≤ outer then
        some ⟨outer - taken + left, aside⟩
      else
        none
  | close .., ⟨_, []⟩ => none
  | stop, ⟨1, []⟩ => some ⟨0, []⟩
  | stop, _ => none
  | never, _ => none

theorem apply_values_zero (left stack : Nat) (aside : List Nat) :
    (values 0 left).apply ⟨stack, aside⟩ = some ⟨stack + left, aside⟩ := by
  simp [apply]

theorem apply_values_succ (taken left stack : Nat) (aside : List Nat) :
    (values (taken + 1) left).apply ⟨stack + 1, aside⟩ =
      (values taken left).apply ⟨stack, aside⟩ := by
  simp [apply]

theorem apply_values_empty (taken left : Nat) (aside : List Nat) :
    (values (taken + 1) left).apply ⟨0, aside⟩ = none := by
  simp [apply]

theorem apply_close_of_le {within stack : Nat} (enough : within ≤ stack)
    (taken left outer : Nat) (aside : List Nat) :
    (close within taken left).apply ⟨stack, outer :: aside⟩ =
      (values taken left).apply ⟨outer, aside⟩ := by
  simp [apply, enough]

theorem apply_close_of_lt {within stack : Nat} (short : stack < within)
    (taken left outer : Nat) (aside : List Nat) :
    (close within taken left).apply ⟨stack, outer :: aside⟩ = none := by
  have tooShort : ¬ within ≤ stack := Nat.not_le_of_lt short
  simp [apply, tooShort]

end Demand

namespace Opcode

/-- What an opcode asks of the depths. The instance that INST makes is left
among the values that the closed mark has used up, so nothing of it stays. -/
def demand : Opcode → Demand
  | .mark => .mark
  | .stop => .stop
  | .pop => .pop
  | .popMark | .inst => .close 0 0 0
  | .list | .dict | .tuple | .frozenSet => .close 0 0 1
  | .obj => .close 1 0 1
  | .appends | .setItems | .addItems => .close 0 1 1
  | .dup => .values 1 2
  | .tuple1 | .put | .binPut | .longBinPut | .memoize | .readonlyBuffer =>
      .values 1 1
  | .tuple2 | .append | .stackGlobal | .newObj | .reduce | .build =>
      .values 2 1
  | .tuple3 | .setItem | .newObjEx => .values 3 1
  | .proto | .frame => .values 0 0
  | .persId | .binPersId | .ext1 | .ext2 | .ext4 | .nextBuffer => .never
  | _ => .values 0 1

end Opcode

/-- The depths after opcodes in order, unless the demand of one is not met. -/
def Depths.after : List Opcode → Depths → Option Depths
  | [], depths => some depths
  | opcode :: opcodes, depths =>
      (opcode.demand.apply depths).bind (Depths.after opcodes)

/-! ## Instructions of opcodes -/

namespace Instruction

def demand : Instruction → Demand
  | .mark => .mark
  | .stop => .stop
  | .pop => .pop
  | .popMark | .inst .. => .close 0 0 0
  | .list | .dict | .tuple | .frozenSet => .close 0 0 1
  | .obj => .close 1 0 1
  | .appends | .setItems | .addItems => .close 0 1 1
  | .dup => .values 1 2
  | .put _ | .memoize | .readonlyBuffer => .values 1 1
  | .tupleOf size => .values size 1
  | .append | .stackGlobal | .newObj | .reduce | .build => .values 2 1
  | .setItem | .newObjEx => .values 3 1
  | .protocol _ | .frame _ => .values 0 0
  | .push _ | .pushFloat _ | .pushObject _ | .get _ | .global .. =>
      .values 0 1

/-- An instruction demands what its opcode demands. -/
theorem demand_ofOpcode (rules : TextRules) (opcode : Opcode) :
    Returns (fun instruction : Instruction =>
      instruction.demand = opcode.demand) (ofOpcode rules opcode) := by
  cases opcode with
  | proto | frame =>
      refine .bind fun number => ?_
      split
      · exact .throw _
      · exact .pure rfl
  | string | binString | shortBinString | unicode | binUnicode |
    binUnicode8 | shortBinUnicode | int | long | float | get | put |
    «global» | inst =>
      exact .bind fun _ => .bind fun _ => .pure rfl
  | binInt | binInt1 | binInt2 | long1 | long4 | binFloat | binBytes |
    shortBinBytes | binBytes8 | byteArray8 | binGet | longBinGet | binPut |
    longBinPut =>
      exact .bind fun _ => .pure rfl
  | persId | binPersId | ext1 | ext2 | ext4 | nextBuffer =>
      exact .throw _
  | _ => exact .pure rfl

/-- How the argument of an opcode may fail: the depths are not blamed, and
nothing is refused unless the opcode only pushes a value. -/
def FailsFor (opcode : Opcode) (failure : Failure) : Prop :=
  failure.IsApart ∧
    (failure.isRefusal = true → opcode.demand = .values 0 1)

theorem rejects_decode (rules : TextRules) (content : Bytes) :
    Rejects Failure.IsApart (rules.decode content) := by
  unfold TextRules.decode
  split
  · exact .ok _
  · split
    · exact .ok _
    · exact .error rfl
    · exact .error rfl

theorem argues_failsFor (rules : TextRules) (opcode : Opcode) :
    Argues rules opcode (fun _ => True)
      (fun failure _ => FailsFor opcode failure) where
  read count small :=
    (Decoding.meets_read count).mono (fun _ _ => trivial)
      (fun _ _ short => ⟨short, trivial⟩)
      (fun _ _ failed => ⟨failed.1, fun refused =>
        absurd small (Nat.not_le_of_lt (failed.2 refused))⟩)
  readLine :=
    Decoding.abides_readLine.mono (fun _ _ => trivial)
      (fun _ _ _ => trivial)
      (fun _ _ failed => ⟨failed.1, fun refused =>
        Bool.noConfusion (failed.2.symm.trans refused)⟩)
  decode isText content _ _ := by
    have pushes : opcode.demand = .values 0 1 := by
      simp only [octetTexts, List.mem_cons, List.not_mem_nil, or_false]
        at isText
      rcases isText with rfl | rfl | rfl <;> rfl
    intro failure failed
    exact ⟨rejects_decode rules content failure failed, fun _ => pushes⟩
  malformed cause isMalformed _ _ := by
    refine ⟨Failure.isApart_of_class ?_, nofun⟩
    rw [isMalformed]
    exact nofun
  unsupported other _ _ := ⟨rfl, nofun⟩

end Instruction

namespace Execution

variable {α β : Type}

/-! ## Actions between depths -/

/-- The action leads from the first depths to the second, and where it fails the
depths are not to blame. -/
abbrev Runs (before : Depths) (action : Execution α) (after : Depths) :
    Prop :=
  Meets (fun machine => machine.depths = before) action
    (fun _ machine => machine.depths = after)
    (fun failure _ => failure.IsApart)

/-- The action fails from these depths, and not because something was
refused. -/
abbrev Stuck (before : Depths) (action : Execution α) : Prop :=
  Meets (fun machine => machine.depths = before) action
    (fun _ _ => False) (fun failure _ => failure.isRefusal = false)

namespace Runs

variable {before between after : Depths}

theorem pure (result : α) :
    Runs before (Pure.pure result : Execution α) before :=
  Meets.pure fun _ here => here

theorem throw {failure : Failure} (isApart : failure.IsApart) :
    Runs before (MonadExcept.throw failure : Execution α) after :=
  Meets.throw fun _ _ => isApart

theorem reject {cause : Cause} (other : cause.blamesDepth = false) :
    Runs before (Execution.reject cause : Execution α) after :=
  throw other

theorem bind {action : Execution α} {next : α → Execution β}
    (first : Runs before action between)
    (second : ∀ value, Runs between (next value) after) :
    Runs before (action >>= next) after :=
  Meets.bind first second

theorem decoding {action : Decoding α} (isApart : action.IsApart) :
    Runs before (Execution.decoding action) before := by
  intro machine here
  have met := isApart machine.source trivial
  unfold Execution.decoding
  cases outcome : action machine.source with
  | ok result source => exact here
  | error failure source =>
      rw [outcome] at met
      exact met

theorem heap : Runs before Execution.heap before :=
  fun _ here => here

theorem setObject (address : Address) (object : Object) :
    Runs before (Execution.setObject address object) before :=
  fun _ here => here

theorem push {stack : Nat} {aside : List Nat} (value : Value) :
    Runs ⟨stack, aside⟩ (Execution.push value) ⟨stack + 1, aside⟩ := by
  intro machine here
  have depths : (⟨machine.stack.length + 1,
      machine.marks.map List.length⟩ : Depths) = ⟨stack + 1, aside⟩ := by
    cases here
    rfl
  exact depths

theorem pushNew {stack : Nat} {aside : List Nat} (object : Object) :
    Runs ⟨stack, aside⟩ (Execution.pushNew object) ⟨stack + 1, aside⟩ :=
  .bind (.decoding (.alloc object)) push

theorem checkHashable (heap : Heap) (items : List Value) :
    Runs before (Execution.checkHashable heap items) before := by
  induction items with
  | nil => exact .pure _
  | cons item rest inductionHypothesis =>
      refine .bind ?_ fun _ => inductionHypothesis
      dsimp only
      split
      · exact .pure _
      · exact .reject rfl
      · exact .throw rfl

theorem entriesOf (items : List Value) :
    Runs before (Execution.entriesOf items) before := by
  unfold Execution.entriesOf
  split
  · exact .reject rfl
  · refine .bind .heap fun heap => ?_
    exact .bind (.checkHashable heap _) fun _ => .pure _

theorem checkReach (reach count : Nat) :
    Runs before (Execution.checkReach reach count) before := by
  unfold Execution.checkReach
  split
  · exact .pure _
  · exact .throw rfl

theorem instantiate (type : Value) (call : Call) :
    Runs before (Execution.instantiate type call) before :=
  .decoding (Decoding.abides_build fun source =>
    source.heap.isApart_instantiate type call)

theorem argumentsOf (opcode : Opcode) (value : Value) :
    Runs before (Execution.argumentsOf opcode value) before := by
  unfold Execution.argumentsOf
  split
  · exact .pure _
  · exact .reject rfl

theorem pushType {stack : Nat} {aside : List Nat} (registry : Registry)
    (module name : Text) :
    Runs ⟨stack, aside⟩ (Execution.pushType registry module name)
      ⟨stack + 1, aside⟩ := by
  unfold Execution.pushType Registry.resolve
  cases registry.find? ⟨module, name⟩ with
  | none => exact .reject rfl
  | some binding => exact .pushNew _

theorem memoGet (slot : Int) :
    Runs before (Execution.memoGet slot) before := by
  refine Meets.get fun machine here => ?_
  dsimp only
  split
  · exact Meets.pure fun _ same => same ▸ here
  · split
    · exact Meets.throw fun _ _ => rfl
    · exact Meets.throw fun _ _ => rfl

end Runs

/-! ## Taking values -/

/-- Where there is a value it is taken. -/
theorem pop_meets (stack : Nat) (aside : List Nat)
    (fails : Failure → Machine → Prop) :
    Meets (fun machine : Machine => machine.depths = ⟨stack + 1, aside⟩) pop
      (fun _ machine => machine.depths = ⟨stack, aside⟩) fails := by
  rintro ⟨source, values, marks, memo, protocol, offset, history⟩ here
  cases values with
  | nil => cases here
  | cons top rest =>
      cases here
      rfl

theorem peek_meets (stack : Nat) (aside : List Nat)
    (fails : Failure → Machine → Prop) :
    Meets (fun machine : Machine => machine.depths = ⟨stack + 1, aside⟩) peek
      (fun _ machine => machine.depths = ⟨stack + 1, aside⟩) fails := by
  rintro ⟨source, values, marks, memo, protocol, offset, history⟩ here
  cases values with
  | nil => cases here
  | cons top rest => exact here

theorem popMark_meets (stack outer : Nat) (aside : List Nat)
    (fails : Failure → Machine → Prop) :
    Meets (fun machine : Machine => machine.depths = ⟨stack, outer :: aside⟩)
      popMark
      (fun items machine =>
        items.length = stack ∧ machine.depths = ⟨outer, aside⟩) fails := by
  rintro ⟨source, values, marks, memo, protocol, offset, history⟩ here
  cases marks with
  | nil => cases here
  | cons saved marks =>
      cases here
      exact ⟨List.length_reverse, rfl⟩

theorem stuck_pop (aside : List Nat) : Stuck ⟨0, aside⟩ pop := by
  rintro ⟨source, values, marks, memo, protocol, offset, history⟩ here
  cases values with
  | nil => rfl
  | cons top rest => cases here

theorem stuck_peek (aside : List Nat) : Stuck ⟨0, aside⟩ peek := by
  rintro ⟨source, values, marks, memo, protocol, offset, history⟩ here
  cases values with
  | nil => rfl
  | cons top rest => cases here

theorem stuck_popMark (stack : Nat) : Stuck ⟨stack, []⟩ popMark := by
  rintro ⟨source, values, marks, memo, protocol, offset, history⟩ here
  cases marks with
  | nil => rfl
  | cons saved marks => cases here

theorem Stuck.bind {before : Depths} {action : Execution α}
    (stuck : Stuck before action) (next : α → Execution β) :
    Stuck before (action >>= next) :=
  Meets.bind stuck fun _ _ impossible => absurd impossible id

theorem Stuck.reject (before : Depths) (cause : Cause) :
    Stuck before (Execution.reject cause : Execution α) :=
  fun _ _ => rfl

namespace Runs

theorem peek {stack : Nat} {aside : List Nat} :
    Runs ⟨stack + 1, aside⟩ Execution.peek ⟨stack + 1, aside⟩ :=
  peek_meets stack aside _

theorem replaceTop {stack : Nat} {aside : List Nat} (value : Value) :
    Runs ⟨stack + 1, aside⟩ (Execution.replaceTop value)
      ⟨stack + 1, aside⟩ :=
  .bind (pop_meets stack aside _) fun _ => push value

theorem wrongTarget {stack : Nat} {aside : List Nat} {after : Depths}
    (opcode : Opcode) :
    Runs ⟨stack + 1, aside⟩
      (Execution.wrongTarget opcode : Execution α) after :=
  .bind .heap fun _ => .bind .peek fun _ => .reject rfl

theorem showTop {stack : Nat} {aside : List Nat} (view : MemoryView) :
    Runs ⟨stack + 1, aside⟩ (protectTop.showTop view) ⟨stack + 1, aside⟩ :=
  .bind (.decoding (.alloc _)) replaceTop

end Runs

/-! ## Actions that fit a demand -/

/-- From depths that meet the demand the action leads on as demanded, and from
all others it is stuck. -/
def Fits (demand : Demand) (action : Execution α) : Prop :=
  ∀ before,
    match demand.apply before with
    | some after => Runs before action after
    | none => Stuck before action

namespace Fits

variable {demand : Demand} {taken left within : Nat}

/-- Nothing is taken. -/
theorem values_zero {action : Execution α}
    (runs : ∀ stack aside,
      Runs ⟨stack, aside⟩ action ⟨stack + left, aside⟩) :
    Fits (.values 0 left) action := by
  rintro ⟨stack, aside⟩
  rw [Demand.apply_values_zero]
  exact runs stack aside

theorem reject {cause : Cause} (other : cause.blamesDepth = false) :
    Fits demand (Execution.reject cause : Execution α) := by
  intro before
  split
  · exact .reject other
  · exact .reject before cause

theorem get_bind {next : Machine → Execution α}
    (fits : ∀ machine, Fits demand (next machine)) :
    Fits demand (get >>= next) := by
  intro before
  split
  · next after meets =>
      refine Meets.get fun machine here => ?_
      have rest := fits machine before
      rw [meets] at rest
      exact rest.mono (fun _ same => same ▸ here)
        (fun _ _ ends => ends) (fun _ _ failed => failed)
  · next misses =>
      refine Meets.get fun machine here => ?_
      have rest := fits machine before
      rw [misses] at rest
      exact rest.mono (fun _ same => same ▸ here)
        (fun _ _ ends => ends) (fun _ _ failed => failed)

/-- What leaves the depths alone and does not fail may follow. -/
theorem bind_still {action : Execution α} {next : α → Execution β}
    (fits : Fits demand action)
    (still : ∀ value (depths : Depths) (fails : Failure → Machine → Prop),
      Meets (fun machine : Machine => machine.depths = depths) (next value)
        (fun _ machine => machine.depths = depths) fails) :
    Fits demand (action >>= next) := by
  intro before
  have first := fits before
  split
  · next after meets =>
      rw [meets] at first
      exact .bind first fun value => still value after _
  · next misses =>
      rw [misses] at first
      exact first.bind next

theorem pop_bind {next : Value → Execution α}
    (rest : ∀ value, Fits (.values taken left) (next value)) :
    Fits (.values (taken + 1) left) (pop >>= next) := by
  rintro ⟨stack, aside⟩
  cases stack with
  | zero =>
      rw [Demand.apply_values_empty]
      exact (stuck_pop aside).bind next
  | succ stack =>
      rw [Demand.apply_values_succ]
      split
      · next after meets =>
          refine Meets.bind (pop_meets stack aside _) fun value => ?_
          have runs := rest value ⟨stack, aside⟩
          rw [meets] at runs
          exact runs
      · next misses =>
          refine Meets.bind (pop_meets stack aside _) fun value => ?_
          have stuck := rest value ⟨stack, aside⟩
          rw [misses] at stuck
          exact stuck

/-- A value is looked at and stays. -/
theorem peek_bind {next : Value → Execution α}
    (rest : ∀ value stack aside,
      Runs ⟨stack + 1, aside⟩ (next value) ⟨stack + left, aside⟩) :
    Fits (.values 1 left) (peek >>= next) := by
  rintro ⟨stack, aside⟩
  cases stack with
  | zero =>
      rw [Demand.apply_values_empty]
      exact (stuck_peek aside).bind next
  | succ stack =>
      rw [Demand.apply_values_succ, Demand.apply_values_zero]
      exact .bind (peek_meets stack aside _) fun value =>
        rest value stack aside

theorem peekObject_bind
    {next : Option (Address × Object) → Execution α}
    (rest : ∀ target stack aside,
      Runs ⟨stack + 1, aside⟩ (next target) ⟨stack + left, aside⟩) :
    Fits (.values 1 left) (peekObject? >>= next) := by
  unfold peekObject?
  rw [bind_assoc]
  refine .peek_bind fun value stack aside => ?_
  refine .bind ?_ fun target => rest target stack aside
  split
  · exact .bind .heap fun _ => .pure _
  · exact .pure _

theorem popMark_bind {next : List Value → Execution α}
    (rest : ∀ items, within ≤ items.length →
      Fits (.values taken left) (next items))
    (short : ∀ items before, items.length < within →
      Stuck before (next items)) :
    Fits (.close within taken left) (popMark >>= next) := by
  rintro ⟨stack, aside⟩
  cases aside with
  | nil => exact (stuck_popMark stack).bind next
  | cons outer aside =>
      by_cases enough : within ≤ stack
      · rw [Demand.apply_close_of_le enough]
        split
        · next after meets =>
            refine Meets.bind (popMark_meets stack outer aside _) fun items => ?_
            rintro machine ⟨size, here⟩
            have runs := rest items (size ▸ enough) ⟨outer, aside⟩
            rw [meets] at runs
            exact runs machine here
        · next misses =>
            refine Meets.bind (popMark_meets stack outer aside _) fun items => ?_
            rintro machine ⟨size, here⟩
            have stuck := rest items (size ▸ enough) ⟨outer, aside⟩
            rw [misses] at stuck
            exact stuck machine here
      · have fewer := Nat.lt_of_not_le enough
        rw [Demand.apply_close_of_lt fewer]
        refine Meets.bind (popMark_meets stack outer aside _) fun items => ?_
        rintro machine ⟨size, here⟩
        exact short items _ (size ▸ fewer) machine here

/-- Any number of values may be above the mark. -/
theorem popMark_bind_all {next : List Value → Execution α}
    (rest : ∀ items, Fits (.values taken left) (next items)) :
    Fits (.close 0 taken left) (popMark >>= next) :=
  popMark_bind (fun items _ => rest items) fun _ _ impossible =>
    absurd impossible (Nat.not_lt_zero _)

theorem popMany_bind {count : Nat} {next : List Value → Execution α}
    (rest : ∀ items stack aside,
      Runs ⟨stack, aside⟩ (next items) ⟨stack + left, aside⟩) :
    Fits (.values count left) (popMany count >>= next) := by
  rintro ⟨stack, aside⟩
  by_cases short : stack < count
  · have misses : (Demand.values count left).apply ⟨stack, aside⟩ = none := by
      simp [Demand.apply, Nat.not_le_of_lt short]
    rw [misses]
    refine Stuck.bind (fun machine here => ?_) next
    have few : machine.stack.length < count := by
      cases here
      exact short
    rw [popMany_of_lt few]
    rfl
  · have enough : count ≤ stack := Nat.le_of_not_lt short
    have meets : (Demand.values count left).apply ⟨stack, aside⟩ =
        some ⟨stack - count + left, aside⟩ := by
      simp [Demand.apply, enough]
    rw [meets]
    have takes : Runs ⟨stack, aside⟩ (popMany count)
        ⟨stack - count, aside⟩ := by
      intro machine here
      cases here
      rw [popMany_of_le short]
      show (⟨(machine.stack.drop count).length,
        machine.marks.map List.length⟩ : Depths) = _
      rw [List.length_drop]
    exact .bind takes fun items => rest items (stack - count) aside

end Fits

/-! ## Instructions -/

theorem fits_extendList (opcode : Opcode) (items : List Value) :
    Fits (.values 1 1) (extendList opcode items) := by
  refine .peekObject_bind fun target stack aside => ?_
  split
  · exact .setObject _ _
  · exact .wrongTarget opcode

theorem fits_extendDict (opcode : Opcode) (items : List Value) :
    Fits (.values 1 1) (extendDict opcode items) := by
  refine .peekObject_bind fun target stack aside => ?_
  split
  · refine .bind (.entriesOf items) fun entries => ?_
    exact .bind (.setObject _ _) fun _ => .checkReach _ _
  · exact .wrongTarget opcode

theorem fits_extendSet (items : List Value) :
    Fits (.values 1 1) (extendSet items) := by
  refine .peekObject_bind fun target stack aside => ?_
  split
  · refine .bind .heap fun heap => ?_
    refine .bind (.checkHashable heap items) fun _ => ?_
    exact .bind (.setObject _ _) fun _ => .checkReach _ _
  · exact .wrongTarget .addItems

theorem fits_memoPut (slot : Nat) : Fits (.values 1 1) (memoPut slot) :=
  .peek_bind fun _ _ _ => Meets.change fun _ here => here

theorem fits_instantiateNamed (registry : Registry) (module name : Text) :
    Fits (.close 0 0 0) (instantiateNamed registry module name) := by
  unfold instantiateNamed Registry.resolve
  cases registry.find? ⟨module, name⟩ with
  | none => exact .reject rfl
  | some binding =>
      refine .popMark_bind_all fun args => .values_zero fun stack aside => ?_
      refine .bind (.decoding (.alloc _)) fun type => ?_
      exact .bind (.instantiate type _) fun _ => .pure _

theorem fits_giveState {options : Options} (isStored : options.IsStored)
    (nested : Decoding Value) :
    Fits (.values 2 1) (giveState options nested) := by
  refine .pop_bind fun state => .peekObject_bind fun target stack aside => ?_
  split
  · next address record =>
    refine .bind (.decoding (.query fun heap =>
      record.isApart_applyState heap state)) fun record => ?_
    refine .bind (.setObject _ _) fun _ => ?_
    split
    · next layout _ =>
      refine .bind (.decoding
        (Payload.isApart_materialize isStored nested layout record))
        fun array => ?_
      exact .bind (.replaceTop array) fun _ =>
        Meets.change fun _ here => here
    · exact .pure _
  · exact .wrongTarget .build

theorem fits_protectTop : Fits (.values 1 1) protectTop := by
  refine .peek_bind fun top stack aside => ?_
  split
  · exact .pure _
  · refine .bind .heap fun heap => ?_
    split
    · exact .showTop _
    · exact .pure _
    · split
      · exact .wrongTarget _
      · split
        · exact .throw rfl
        · split
          · exact .showTop _
          · exact .pure _
    · exact .wrongTarget _
  · exact .wrongTarget _

theorem fits_popOrMark :
    Fits .pop (do
      if (← get).stack.isEmpty then
        let _ ← popMark
      else
        let _ ← pop) := by
  rintro ⟨stack, aside⟩
  have chosen : ∀ machine : Machine, machine.depths = ⟨stack, aside⟩ →
      (machine.stack.isEmpty = true ↔ stack = 0) := by
    intro machine here
    have size : machine.stack.length = stack := congrArg Depths.stack here
    rw [List.isEmpty_iff, ← size, List.length_eq_zero_iff]
  cases stack with
  | succ stack =>
      refine Meets.get fun machine here => ?_
      rw [if_neg fun empty => nomatch (chosen machine here).mp empty]
      refine .bind ((pop_meets stack aside _).mono
        (fun _ same => same ▸ here) (fun _ _ ends => ends)
        (fun _ _ failed => failed)) fun _ => ?_
      exact Meets.pure fun _ ends => ends
  | zero =>
      cases aside with
      | nil =>
          refine Meets.get fun machine here => ?_
          rw [if_pos ((chosen machine here).mpr rfl)]
          exact (Stuck.bind (stuck_popMark 0) _).mono
            (fun _ same => same ▸ here) (fun _ _ ends => ends)
            (fun _ _ failed => failed)
      | cons outer aside =>
          refine Meets.get fun machine here => ?_
          rw [if_pos ((chosen machine here).mpr rfl)]
          refine .bind ((popMark_meets 0 outer aside _).mono
            (fun _ same => same ▸ here) (fun _ _ ends => ends)
            (fun _ _ failed => failed)) fun _ => ?_
          exact Meets.pure fun _ ends => ends.2

theorem fits_finish : Fits .stop finish := by
  have isApart : ∀ {depths : Depths}, depths ≠ ⟨1, []⟩ →
      Stuck depths finish := by
    intro depths other machine here
    unfold finish
    rw [Actions.get_bind]
    by_cases marked : (!machine.marks.isEmpty) = true
    · rw [if_pos marked]
      rfl
    · have noMarks : machine.marks = [] := by
        simpa using marked
      have many : machine.stack.length ≠ 1 := by
        intro one
        apply other
        rw [← here, Machine.depths, one, noMarks]
        rfl
      rw [if_neg marked, if_pos many]
      rfl
  rintro ⟨stack, aside⟩
  by_cases ready : stack = 1 ∧ aside = []
  · obtain ⟨rfl, rfl⟩ := ready
    intro machine here
    obtain ⟨source, values, marks, memo, protocol, offset, history⟩ :=
      machine
    have noMarks : marks = [] :=
      List.map_eq_nil_iff.mp (congrArg Depths.aside here)
    obtain ⟨value, rfl⟩ :=
      List.length_eq_one_iff.mp (congrArg Depths.stack here)
    subst noMarks
    rfl
  · have misses : Demand.stop.apply ⟨stack, aside⟩ = none := by
      unfold Demand.apply
      split <;> simp_all
    rw [misses]
    refine isApart fun same => ready ?_
    cases same
    exact ⟨rfl, rfl⟩

theorem fits_openFrame (size : Nat) :
    Fits (.values 0 0) (decoding (Decoding.reading (Reader.openFrame size))) := by
  refine .values_zero fun stack aside => .decoding ?_
  intro source _
  have met := Reader.isApart_openFrame size source.reader
  unfold Decoding.reading
  cases outcome : source.reader.openFrame size with
  | ok result reader => trivial
  | error failure reader =>
      rw [outcome] at met
      exact met

theorem Fits.proceed {demand : Demand} {action : Execution Unit}
    (fits : Fits demand action) : Fits demand (execute.proceed action) :=
  fits.bind_still fun _ _ _ => Meets.pure fun _ here => here

section Instructions

variable {options : Options} {nested : Decoding Value}

theorem fits_mark :
    Fits Instruction.mark.demand (execute options nested .mark) := by
  refine .proceed ?_
  rintro ⟨stack, aside⟩ machine here
  have depths : (⟨0, machine.stack.length ::
      machine.marks.map List.length⟩ : Depths) = ⟨0, stack :: aside⟩ := by
    cases here
    rfl
  exact depths

theorem fits_dict :
    Fits Instruction.dict.demand (execute options nested .dict) := by
  refine .proceed (.popMark_bind_all fun items =>
    .values_zero fun stack aside => ?_)
  refine .bind (.entriesOf items) fun entries => ?_
  exact .bind (.checkReach _ _) fun _ => .pushNew _

theorem fits_frozenSet :
    Fits Instruction.frozenSet.demand
      (execute options nested .frozenSet) := by
  refine .proceed (.popMark_bind_all fun items =>
    .values_zero fun stack aside => ?_)
  refine .bind .heap fun heap => ?_
  refine .bind (.checkHashable heap items) fun _ => ?_
  exact .bind (.checkReach _ _) fun _ => .push _

theorem fits_stackGlobal :
    Fits Instruction.stackGlobal.demand
      (execute options nested .stackGlobal) := by
  refine .proceed (.pop_bind fun name => .pop_bind fun module => ?_)
  refine .values_zero fun stack aside => ?_
  split
  · exact .pushType _ _ _
  · exact .reject rfl

/-- There must be a mark with a type above it. -/
theorem fits_obj :
    Fits Instruction.obj.demand (execute options nested .obj) := by
  refine .proceed (.popMark_bind (fun items enough => ?_)
    fun items before short => ?_)
  · refine .values_zero fun stack aside => ?_
    cases items with
    | nil => exact absurd enough (by decide)
    | cons type args =>
        exact .bind (.instantiate type _) fun value => .push value
  · cases items with
    | nil => exact .reject before _
    | cons type args =>
        exact absurd short (by simp)

theorem fits_newObj :
    Fits Instruction.newObj.demand (execute options nested .newObj) := by
  refine .proceed (.pop_bind fun args => .pop_bind fun type => ?_)
  refine .values_zero fun stack aside => ?_
  exact .bind (.argumentsOf _ args) fun args =>
    .bind (.instantiate type _) fun value => .push value

theorem fits_newObjEx :
    Fits Instruction.newObjEx.demand
      (execute options nested .newObjEx) := by
  refine .proceed (.pop_bind fun named => .pop_bind fun args =>
    .pop_bind fun type => ?_)
  refine .values_zero fun stack aside => .bind .heap fun heap => ?_
  split
  · exact .bind (.instantiate type _) fun value => .push value
  · exact .reject rfl

theorem fits_reduce :
    Fits Instruction.reduce.demand (execute options nested .reduce) := by
  refine .proceed (.pop_bind fun args => .peek_bind
    fun type stack aside => ?_)
  exact .bind (.argumentsOf _ args) fun args =>
    .bind (.instantiate type _) fun value => .replaceTop value

end Instructions

/-- From depths that meet its demand an instruction leads on as demanded, or fails
without blame of the depths. From all other depths it fails. -/
theorem fits_execute {options : Options} (isStored : options.IsStored)
    (nested : Decoding Value) (instruction : Instruction) :
    Fits instruction.demand (execute options nested instruction) := by
  cases instruction with
  | stop =>
      exact fits_finish.bind_still fun _ _ _ => Meets.pure fun _ here => here
  | protocol version =>
      exact .proceed (.values_zero fun _ _ => Meets.change fun _ here => here)
  | frame size => exact .proceed (fits_openFrame size)
  | push value => exact .proceed (.values_zero fun _ _ => .push value)
  | pushFloat number =>
      refine .proceed (.values_zero fun stack aside => ?_)
      exact .bind (.decoding (.make _)) fun value => .push value
  | pushObject object =>
      exact .proceed (.values_zero fun _ _ => .pushNew object)
  | mark => exact fits_mark
  | pop => exact .proceed fits_popOrMark
  | popMark =>
      exact .proceed (.popMark_bind_all fun _ =>
        .values_zero fun _ _ => .pure _)
  | dup => exact .proceed (.peek_bind fun value _ _ => .push value)
  | list =>
      exact .proceed (.popMark_bind_all fun items =>
        .values_zero fun _ _ => .pushNew _)
  | dict => exact fits_dict
  | tuple =>
      exact .proceed (.popMark_bind_all fun items =>
        .values_zero fun _ _ => .push _)
  | frozenSet => exact fits_frozenSet
  | tupleOf size => exact .proceed (.popMany_bind fun items _ _ => .push _)
  | append => exact .proceed (.pop_bind fun value => fits_extendList _ _)
  | appends =>
      exact .proceed (.popMark_bind_all fun items => fits_extendList _ items)
  | setItem =>
      exact .proceed (.pop_bind fun value => .pop_bind fun key =>
        fits_extendDict _ _)
  | setItems =>
      exact .proceed (.popMark_bind_all fun items => fits_extendDict _ items)
  | addItems => exact .proceed (.popMark_bind_all fits_extendSet)
  | get slot =>
      refine .proceed (.values_zero fun stack aside => ?_)
      exact .bind (.memoGet slot) fun value => .push value
  | put slot =>
      refine .proceed ?_
      split
      · exact .reject rfl
      · exact fits_memoPut _
  | memoize => exact .proceed (.get_bind fun machine => fits_memoPut _)
  | «global» module name =>
      exact .proceed (.values_zero fun _ _ => .pushType _ _ _)
  | stackGlobal => exact fits_stackGlobal
  | inst module name => exact .proceed (fits_instantiateNamed _ _ _)
  | obj => exact fits_obj
  | newObj => exact fits_newObj
  | newObjEx => exact fits_newObjEx
  | reduce => exact fits_reduce
  | build => exact .proceed (fits_giveState isStored nested)
  | readonlyBuffer => exact .proceed fits_protectTop

end Execution

end PickleGraph
