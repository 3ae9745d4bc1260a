import PickleGraph.Proofs.Machine.Depth

/-!
# Execution is local in the stack

Values may lie beneath the outermost stack of a machine, and further stacks may
have been set aside below it. Opcodes that are completed without this ground are
completed on it as well: they leave the same values on top of it and do the same
to the memo, the reader and the heap. The ground stays as it is.
-/

namespace PickleGraph

open Actions

/-- What lies below the stacks of a machine: values beneath the outermost stack,
and stacks that were set aside before it. -/
structure Ground where
  values : List Value
  marks : List (List Value)

namespace Ground

/-- The values beneath a stack above some marks. Only a stack without marks
stands on the ground itself. -/
def under (ground : Ground) : List (List Value) → List Value
  | [] => ground.values
  | _ :: _ => []

/-- Some marks with the ground beneath the outermost one. -/
def beneath (ground : Ground) : List (List Value) → List (List Value)
  | [] => ground.marks
  | stack :: marks => (stack ++ ground.under marks) :: ground.beneath marks

example :
    (⟨[.none], [[]]⟩ : Ground).beneath [[.bool true], [.int 1]] =
      [[.bool true], [.int 1, .none], []] :=
  rfl

end Ground

/-- The second machine has the stacks of the first one on the ground. -/
structure Machine.StandsOn (ground : Ground) (machine other : Machine) : Prop
    where
  source : other.source = machine.source
  stack : other.stack = machine.stack ++ ground.under machine.marks
  marks : other.marks = ground.beneath machine.marks
  memo : other.memo = machine.memo
  protocol : other.protocol = machine.protocol
  offset : other.offset = machine.offset

namespace Execution

/-- An action that succeeds does so on the ground as well, with the same result,
and leaves the ground as it is. -/
abbrev Local {α : Type} (ground : Ground) (action : Execution α) : Prop :=
  Mirrors (Machine.StandsOn ground) id action action

namespace Local

variable {α β : Type} {ground : Ground}

theorem pure (result : α) :
    Local ground (Pure.pure result : Execution α) :=
  Mirrors.pure result

theorem throw (failure : Failure) :
    Local ground (MonadExcept.throw failure : Execution α) :=
  Mirrors.throw failure _

theorem reject (cause : Cause) :
    Local ground (Execution.reject cause : Execution α) :=
  throw _

theorem bind {action : Execution α} {next : α → Execution β}
    (first : Local ground action)
    (second : ∀ value, Local ground (next value)) :
    Local ground (action >>= next) :=
  Mirrors.bind first second

theorem get {next : Machine → Execution α}
    (second : ∀ machine other, machine.StandsOn ground other →
      Mirrors (Machine.StandsOn ground) id (next machine) (next other)) :
    Local ground (MonadState.get >>= next) :=
  Mirrors.get second

theorem modify {update : Machine → Machine}
    (kept : ∀ machine other, machine.StandsOn ground other →
      (update machine).StandsOn ground (update other)) :
    Local ground (modify update : Execution Unit) :=
  Mirrors.update kept

/-! ## The source -/

theorem decoding (action : Decoding α) :
    Local ground (Execution.decoding action) := by
  intro machine other result after stands success
  obtain ⟨source, decoded, rfl⟩ := decoding_eq_ok_iff.mp success
  rw [← stands.source] at decoded
  exact ⟨{ other with source }, decoding_eq_ok_iff.mpr ⟨source, decoded, rfl⟩,
    { stands with source := rfl }⟩

theorem setObject (address : Address) (object : Object) :
    Local ground (Execution.setObject address object) :=
  decoding _

theorem heap : Local ground Execution.heap := by
  refine .get fun machine other stands => ?_
  have same : other.heap = machine.heap :=
    congrArg Source.heap stands.source
  rw [same]
  exact .pure _

/-! ## The stack -/

theorem push (value : Value) : Local ground (Execution.push value) :=
  .modify fun _ _ stands =>
    { stands with stack := congrArg (value :: ·) stands.stack }

theorem pushNew (object : Object) :
    Local ground (Execution.pushNew object) :=
  .bind (decoding _) push

theorem pop : Local ground Execution.pop := by
  refine .get fun machine other stands => ?_
  rw [stands.stack]
  cases machine.stack with
  | nil => exact Mirrors.throw _ _
  | cons top rest =>
      exact Mirrors.bind (.set { stands with stack := rfl }) fun _ =>
        .pure top

theorem peek : Local ground Execution.peek := by
  refine .get fun machine other stands => ?_
  rw [stands.stack]
  cases machine.stack with
  | nil => exact Mirrors.throw _ _
  | cons top rest => exact .pure top

/-- Enough values above the ground are taken from above it. -/
theorem popMany (count : Nat) : Local ground (Execution.popMany count) := by
  refine .get fun machine other stands => ?_
  rw [stands.stack]
  by_cases short : machine.stack.length < count
  · rw [if_pos short]
    exact Mirrors.throw _ _
  · have enough : count ≤ machine.stack.length := Nat.le_of_not_lt short
    have alsoEnough : ¬ (machine.stack ++ ground.under machine.marks).length <
        count := by
      rw [List.length_append]
      omega
    rw [if_neg short, if_neg alsoEnough, List.take_append_of_le_length enough,
      List.drop_append_of_le_length enough]
    exact Mirrors.bind (.set { stands with stack := rfl }) fun _ => .pure _

theorem replaceTop (value : Value) :
    Local ground (Execution.replaceTop value) :=
  .bind pop fun _ => push value

/-! ## Marks -/

theorem mark : Local ground Execution.mark :=
  .modify fun _ _ stands =>
    { stands with
      stack := rfl
      marks := congrArg₂ List.cons stands.stack stands.marks }

/-- The values above a mark lie above the ground, which is met again where the
outermost stack is. -/
theorem popMark : Local ground Execution.popMark := by
  refine .get fun machine other stands => ?_
  rw [stands.stack, stands.marks]
  cases machine.marks with
  | nil => exact Mirrors.throw _ _
  | cons stack marks =>
      have above : machine.stack ++ ground.under (stack :: marks) =
          machine.stack := List.append_nil _
      rw [above]
      exact Mirrors.bind (.set { stands with stack := rfl, marks := rfl })
        fun _ => .pure _

/-- An empty stack gives way to the one below its mark. Where there is no mark
nothing can be taken, so that the ground is out of reach. -/
theorem popOrClose :
    Local ground (do
      if (← MonadState.get).stack.isEmpty then
        let _ ← Execution.popMark
      else
        let _ ← Execution.pop) := by
  intro machine other result after stands success
  rw [get_bind] at success ⊢
  cases holds : machine.stack with
  | nil =>
      rw [holds, List.isEmpty_nil, if_pos rfl] at success
      cases marks : machine.marks with
      | nil =>
          obtain ⟨_, _, closed, _⟩ := bind_eq_ok_iff.mp success
          rw [Execution.popMark, get_bind, marks] at closed
          cases closed
      | cons stack rest =>
          have bare : other.stack = [] := by
            rw [stands.stack, holds, marks]
            rfl
          rw [bare, List.isEmpty_nil, if_pos rfl]
          exact Local.bind popMark (fun _ => .pure ()) machine other result
            after stands success
  | cons top rest =>
      rw [stands.stack, holds]
      rw [holds] at success
      exact Local.bind pop (fun _ => .pure ()) machine other result after
        stands success

/-! ## The memo -/

theorem memoGet (slot : Int) : Local ground (Execution.memoGet slot) := by
  refine .get fun machine other stands => ?_
  rw [stands.memo]
  dsimp only
  split
  · exact Local.pure _
  · split
    · exact Local.reject _
    · exact Local.throw _

theorem memoPut (slot : Nat) : Local ground (Execution.memoPut slot) :=
  .bind peek fun value => .modify fun _ _ stands =>
    { stands with memo := congrArg (Memo.insert slot value) stands.memo }

theorem putArray (address : Address) (array : Value) :
    Local ground (Execution.putArray address array) :=
  .bind (replaceTop array) fun _ => .modify fun _ _ stands =>
    { stands with memo := congrArg (Memo.replace address array) stands.memo }

/-! ## What instructions are composed of -/

theorem asking (ground : Ground) : Asking (Local ground) where
  pure := .pure
  throw := .throw
  bind := .bind
  heap := heap
  peek := peek

theorem composing (ground : Ground) (registry : Registry) :
    Composing registry (Local ground) (Local ground) where
  toAsking := asking ground
  kept stays := stays
  follow := .bind
  proceed stays := .bind stays fun _ => .pure _
  push := push
  pop := pop
  popMany := popMany
  mark := mark
  popMark := popMark
  alloc _ := decoding _
  float _ := decoding _
  instantiate _ _ := decoding _
  setObject address _ _ := setObject address _

/-! ## States -/

theorem applyToTop : Local ground Execution.applyToTop := by
  refine .bind pop fun state => ?_
  refine .bind (asking ground).peekObject fun target => ?_
  split
  · refine .bind (decoding _) fun record => ?_
    exact .bind (setObject _ _) fun _ => .pure _
  · exact (asking ground).wrongTarget .build

theorem fillPlaceholder (options : Options) (nested : Decoding Value)
    (address : Address) (record : Record) :
    Local ground
      (Execution.fillPlaceholder options nested address record) := by
  unfold Execution.fillPlaceholder
  split
  · exact .bind (decoding _) fun array => putArray address array
  · exact .pure _

theorem giveState (options : Options) (nested : Decoding Value) :
    Local ground (Execution.giveState options nested) := by
  rw [giveState_eq]
  exact .bind applyToTop fun target => fillPlaceholder options nested _ _

end Local

/-! ## Instructions -/

variable {ground : Ground} {options : Options} {nested : Decoding Value}

/-- Only the end of a pickle asks what lies below. -/
theorem local_execute {instruction : Instruction}
    (noStop : instruction ≠ .stop) :
    Local ground (execute options nested instruction) := by
  have proceed : ∀ {action : Execution Unit}, Local ground action →
      Local ground (execute.proceed action) :=
    fun stays => .bind stays fun _ => .pure _
  cases instruction with
  | stop => exact absurd rfl noStop
  | protocol version =>
      exact proceed (.modify fun _ _ stands =>
        { stands with protocol := rfl })
  | frame size => exact proceed (.decoding _)
  | pushObject object => exact proceed (.pushNew object)
  | pop => exact proceed .popOrClose
  | get slot => exact proceed (.bind (.memoGet slot) .push)
  | put slot =>
      refine proceed ?_
      split
      · exact .reject _
      · exact .memoPut _
  | memoize =>
      refine proceed (.get fun machine other stands => ?_)
      rw [stands.memo]
      exact Local.memoPut _
  | build => exact proceed (.giveState options nested)
  | _ => exact (Local.composing ground options.registry).execute trivial

/-! ## Opcodes -/

theorem local_readOpcode : Local ground readOpcode := by
  intro machine other opcode after stands success
  obtain ⟨data, source, read, known, rfl⟩ := readOpcode_eq_ok_iff.mp success
  rw [← stands.source] at read
  refine ⟨_, readOpcode_eq_ok_iff.mpr ⟨data, source, read, known, rfl⟩, ?_⟩
  rw [stands.source]
  exact { stands with source := rfl, offset := rfl }

/-- An opcode that does not end the pickle is completed on the ground. -/
theorem perform_on_ground {machine other after : Machine} {opcode : Opcode}
    (stands : machine.StandsOn ground other)
    (performed : perform options nested opcode machine = .ok none after) :
    ∃ last, perform options nested opcode other = .ok none last ∧
      after.StandsOn ground last := by
  obtain ⟨instruction, middle, end_, argued, executed, rfl⟩ :=
    perform_eq_ok_iff.mp performed
  have noStop : instruction ≠ .stop := by
    rintro rfl
    obtain ⟨_, _, _, done⟩ := bind_eq_ok_iff.mp executed
    cases done
  obtain ⟨otherMiddle, arguedAgain, met⟩ :=
    Local.decoding _ machine other instruction middle stands argued
  obtain ⟨otherLast, executedAgain, ends⟩ :=
    local_execute noStop middle otherMiddle none end_ met executed
  exact ⟨_, perform_eq_ok_iff.mpr
    ⟨instruction, otherMiddle, otherLast, arguedAgain, executedAgain, rfl⟩,
    { ends with }⟩

/-- Opcodes that are completed without the ground are completed on it. They read
the same part of the input, do the same to the memo and the heap, leave the same
values above the ground, and leave the ground as it is. -/
theorem completes_on_ground {machine other last : Machine}
    {opcodes : List Opcode}
    (completes : Completes options machine opcodes last)
    (stands : machine.StandsOn ground other) :
    ∃ end_, Completes options other opcodes end_ ∧
      last.StandsOn ground end_ := by
  induction completes generalizing other with
  | nil machine => exact ⟨other, .nil other, stands⟩
  | cons read performed _ inductionHypothesis =>
      obtain ⟨opened, readAgain, met⟩ :=
        local_readOpcode _ other _ _ stands read
      obtain ⟨next, performedAgain, still⟩ := perform_on_ground met performed
      obtain ⟨end_, others, ends⟩ := inductionHypothesis still
      exact ⟨end_, .cons readAgain performedAgain others, ends⟩

/-- A machine before a pickle of a list. Of two opcodes that take the top of the
stack, the second one finds the stack empty and closes a mark. -/
def listBelowMark : Machine :=
  Machine.ofReader (.ofBytes [0x5D, 0x28, 0x4B, 0x01, 0x30, 0x30, 0x2E])
    .empty false

/-- The list is left on top of another value, which a mark has set apart from a
third one. -/
theorem completes_on_twoValues :
    let ground : Ground := ⟨[.none], [[.bool true]]⟩
    let other : Machine :=
      { listBelowMark.restart with stack := [.none], marks := [[.bool true]] }
    listBelowMark.restart.StandsOn ground other ∧
      ∃ opcodes last value end_,
        Completes .standard listBelowMark.restart opcodes last ∧
        last.stack = [value] ∧ last.marks = [] ∧
        Completes .standard other opcodes end_ ∧
        end_.stack = [value, .none] ∧ end_.marks = [[.bool true]] ∧
        end_.source = last.source ∧ end_.memo = last.memo := by
  intro ground other
  have stands : listBelowMark.restart.StandsOn ground other :=
    ⟨rfl, rfl, rfl, rfl, rfl, rfl⟩
  have isOk : succeeds (runToEnd .standard listBelowMark.restart) = true := by
    decide +kernel
  refine ⟨stands, ?_⟩
  cases finished : runToEnd .standard listBelowMark.restart with
  | error failure after =>
      rw [finished] at isOk
      cases isOk
  | ok value after =>
      obtain ⟨opcodes, last, middle, completes, read, stack, marks, _⟩ :=
        completes_of_runToEnd finished
      obtain ⟨end_, others, ends⟩ := completes_on_ground completes stands
      obtain ⟨_, _, _, _, rfl⟩ := readOpcode_eq_ok_iff.mp read
      refine ⟨opcodes, last, value, end_, completes, stack, marks, others, ?_,
        ?_, ends.source, ends.memo⟩
      · rw [ends.stack, show last.stack = [value] from stack,
          show last.marks = [] from marks]
        rfl
      · rw [ends.marks, show last.marks = [] from marks]
        rfl

end Execution

end PickleGraph
