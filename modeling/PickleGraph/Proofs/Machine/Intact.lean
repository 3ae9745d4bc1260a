import PickleGraph.Proofs.Machine.Governed
import PickleGraph.Proofs.Machine.Unharmed

/-!
# A failure leaves the graph intact

A machine that has failed keeps its memo, and all objects that the memo leads to
are the ones from before the failure. A placeholder whose payload has failed may
differ: its fields may hold the state it was given. When keys are nested too deep
to be compared, the mapping or set that they were to be added to may hold those
before them.
-/

namespace PickleGraph

open Actions

/-! ## What a value leads to -/

/-- The value leads to the object at the address, through other objects or
directly. -/
inductive Heap.Leads (heap : Heap) (value : Value) : Address → Prop
  | mentioned {address : Address} :
      address ∈ value.addresses → Leads heap value address
  | through {address further : Address} :
      Leads heap value address →
      further ∈ (heap.get address).addresses → Leads heap value further

namespace Heap.Leads

variable {heap after : Heap} {value : Value} {address : Address}

/-- Values lead to the same objects in heaps that agree on these. -/
theorem congr (same : ∀ address, heap.Leads value address →
    after.get address = heap.get address) :
    after.Leads value address ↔ heap.Leads value address := by
  constructor
  · intro leads
    induction leads with
    | mentioned member => exact .mentioned member
    | through _ member inductionHypothesis =>
        rw [same _ inductionHypothesis] at member
        exact .through inductionHypothesis member
  · intro leads
    induction leads with
    | mentioned member => exact .mentioned member
    | through leads member inductionHypothesis =>
        rw [← same _ leads] at member
        exact .through inductionHypothesis member

theorem lt_size {held : List Address}
    (confines : Heap.empty.Confines held heap)
    (inHand : value.addresses ⊆ held) (leads : heap.Leads value address) :
    address < heap.objects.size := by
  induction leads with
  | mentioned member => exact (confines.held _ (inHand member)).2
  | through _ member _ =>
      exact (confines.inner _ (Nat.zero_le _) _ member).2

end Heap.Leads

namespace Execution

open Machine

/-! ## No loose ends -/

/-- The machine is about to give a placeholder its state: the object is the
record at the address with the state merged into its fields. -/
def IsRefilled (machine : Machine) (address : Address) (object : Object) :
    Prop :=
  ∃ state rest record filled target layout middle,
    readOpcode machine = .ok .build middle ∧
      machine.stack = state :: .object address :: rest ∧
      machine.heap.get address = .record record ∧
      record.strategy = .array target layout ∧
      record.applyState machine.heap state = .ok filled ∧
      object = .record { record with fields := filled.fields }

/-- The machine is about to add what is above the mark to the object below it:
the object is the one at the address with the additions before a key that cannot
be compared. -/
def IsBrokenOff (machine : Machine) (address : Address) (object : Object) :
    Prop :=
  ∃ opcode middle below marks,
    readOpcode machine = .ok opcode middle ∧
      machine.marks = (.object address :: below) :: marks ∧
      (opcode = .setItems ∧ EntriesBreakOff machine.stack.reverse
          (machine.heap.get address) object ∨
        opcode = .addItems ∧ MembersBreakOff machine.stack.reverse
          (machine.heap.get address) object)

/-- The object is what the failure of the machine may make of the one at the
address. -/
def IsSpoiled (machine : Machine) (failure : Failure) (address : Address)
    (object : Object) : Prop :=
  IsRefilled machine address object ∨
    failure = .refused .recursion ∧ IsBrokenOff machine address object

/-- A machine that differs from another one at most in objects that a failure may
spoil, as far as the memo and the objects go. -/
structure DiffersByFailure (machine : Machine) (failure : Failure)
    (middle : Machine) : Prop where
  memo : middle.memo = machine.memo
  size : middle.heap.objects.size = machine.heap.objects.size
  objects : ∀ address, middle.heap.get address = machine.heap.get address ∨
    IsSpoiled machine failure address (middle.heap.get address)

theorem DiffersByFailure.refl (machine : Machine) (failure : Failure) :
    DiffersByFailure machine failure machine :=
  ⟨rfl, rfl, fun _ => .inl rfl⟩

/-- One object has been written. -/
theorem DiffersByFailure.of_set {machine middle : Machine} {failure : Failure}
    {address : Address} {object : Object} (memo : middle.memo = machine.memo)
    (written : middle.heap = machine.heap.set address object)
    (old : address < machine.heap.objects.size)
    (isSpoiled : IsSpoiled machine failure address object) :
    DiffersByFailure machine failure middle := by
  refine ⟨memo, written ▸ Heap.size_set _ _ _, fun other => ?_⟩
  rw [written]
  by_cases isTarget : other = address
  · subst isTarget
    rw [Heap.get_set_self _ old]
    exact .inr isSpoiled
  · exact .inl (Heap.get_set_of_ne _ isTarget)

/-! ## The failing step -/

theorem IsBrokenOff.lt_size {machine : Machine} {address : Address}
    {object : Object} (isBrokenOff : IsBrokenOff machine address object) :
    address < machine.heap.objects.size := by
  obtain ⟨_, _, _, _, _, _, ⟨_, broken⟩ | ⟨_, broken⟩⟩ := isBrokenOff
  all_goals
    have isThere : machine.heap.get address ≠ .plain := by
      intro isPlain
      rw [isPlain] at broken
      cases broken
    exact Heap.lt_size_of_get rfl isThere

theorem IsBrokenOff.differs {machine after : Machine} {address : Address}
    {object : Object} (isBrokenOff : IsBrokenOff machine address object)
    (memo : after.memo = machine.memo)
    (written : after.heap = machine.heap.set address object) :
    DiffersByFailure machine (.refused .recursion) after :=
  .of_set memo written isBrokenOff.lt_size (.inr ⟨rfl, isBrokenOff⟩)

/-- The machine after a step. -/
def advance (options : Options) (machine : Machine) : Machine :=
  finalState (placed (step options (nestedPickle options)) machine)

theorem Reached.advance {options : Options} {machine : Machine}
    (reached : Reached options machine) :
    Reached options (Execution.advance options machine) :=
  reached.step

/-- The stretch of code leads a reached machine from the first contents to a
reached machine with the second. -/
def Reaches (options : Options) (code : Bytes) (before after : Contents) :
    Prop :=
  ∀ (rest : Bytes) (machine : Machine), machine.Stands (code ++ rest) before →
    Reached options machine →
      ∃ next : Machine, next.Stands rest after ∧ Reached options next

section Reaches

variable {options : Options} {code more : Bytes}
variable {before middle after : Contents}

theorem Reaches.append (first : Reaches options code before middle)
    (second : Reaches options more middle after) :
    Reaches options (code ++ more) before after := by
  intro rest machine stands reached
  rw [List.append_assoc] at stands
  obtain ⟨next, nextStands, nextReached⟩ := first _ machine stands reached
  exact second rest next nextStands nextReached

theorem Reaches.of_effect {opcode : Opcode} {argument : Bytes}
    {instruction : Instruction}
    (taken : Decoding.Takes (Instruction.ofOpcode options.rules opcode)
      argument instruction)
    (effect : Effect options instruction before after) :
    Reaches options (opcode.code :: argument) before after := by
  intro rest machine stands reached
  obtain ⟨next, nextStands, stepped⟩ := step_of_effect taken effect stands
  have stepReached := reached.step
  rw [placed_eq_ok_iff.mpr stepped] at stepReached
  exact ⟨next, nextStands, stepReached⟩

theorem Reaches.bare (opcode : Opcode) {instruction : Instruction}
    (noArgument : Instruction.ofOpcode options.rules opcode =
      pure instruction)
    (effect : Effect options instruction before after) :
    Reaches options [opcode.code] before after := by
  refine .of_effect ?_ effect
  rw [noArgument]
  exact .pure instruction

variable {stack : List Value} {marks : List (List Value)}
variable {memo : List (Nat × Value)} {heap : Heap}

/-- Each opcode puts the top into one tuple more. -/
theorem Reaches.nested (value : Value) (depth : Nat) :
    Reaches options (List.replicate depth Opcode.tuple1.code)
      ⟨value :: stack, marks, memo, heap⟩
      ⟨value.nested depth :: stack, marks, memo, heap⟩ := by
  induction depth with
  | zero => exact fun _ machine stands reached => ⟨machine, stands, reached⟩
  | succ depth inductionHypothesis =>
      have further : Effect options (.tupleOf 1)
          ⟨[value.nested depth].reverse ++ stack, marks, memo, heap⟩
          ⟨.tuple [value.nested depth] :: stack, marks, memo, heap⟩ :=
        effect_tupleOf rfl
      rw [List.replicate_succ']
      exact inductionHypothesis.append (.bare .tuple1 rfl further)

end Reaches

end Execution

end PickleGraph
