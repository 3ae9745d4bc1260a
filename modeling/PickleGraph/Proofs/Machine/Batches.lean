import PickleGraph.Proofs.Heap.Confinement
import PickleGraph.Proofs.Machine.Effect
import PickleGraph.Proofs.Value.Key

/-!
# Batches

A container is filled one value after another, or with all the values above a
mark at once. In whatever batches the values are added, the machine ends in the
same state, and a batch that is refused adds nothing. A key that is nested too deep
to be compared ends the additions where it stands.
-/

namespace PickleGraph

open Actions

/-! ## Instructions in a row -/

namespace Machine

/-- The machine with another object at an address. -/
def withObject (machine : Machine) (address : Address) (object : Object) :
    Machine :=
  { machine with
    source := { machine.source with heap := machine.heap.set address object } }

/-- The machine with a new object on top. -/
def withNew (machine : Machine) (object : Object) : Machine :=
  { machine with
    source := { machine.source with heap := (machine.heap.alloc object).2 }
    stack := .object machine.heap.objects.size :: machine.stack }

theorem withObject_self {machine : Machine} {address : Address}
    {object : Object} (here : machine.heap.get address = object)
    (present : object ≠ .plain) :
    machine.withObject address object = machine := by
  have same : machine.source.heap.set address object = machine.source.heap :=
    Heap.set_get_self here present
  unfold withObject heap
  rw [same]

theorem withObject_withObject (machine : Machine) (address : Address)
    (object last : Object) :
    (machine.withObject address object).withObject address last =
      machine.withObject address last := by
  unfold withObject heap
  rw [Heap.set_set]

theorem withNew_withObject (machine : Machine) (object last : Object) :
    (machine.withNew object).withObject machine.heap.objects.size last =
      machine.withNew last := by
  unfold withObject withNew heap
  rw [Heap.set_alloc]

/-- The outcome of additions to the object at an address, of which so many are
within reach: the object holds these, and they should be all. -/
def filled {α : Type} (machine : Machine) (address : Address)
    (object : List α → Object) (additions : List α) (reach : Nat) :
    EStateM.Result Failure Machine Unit :=
  if reach = additions.length then
    .ok () (machine.withObject address (object additions))
  else
    .error (.refused .recursion)
      (machine.withObject address (object (additions.take reach)))

theorem withObject_filled {α : Type} (machine : Machine) (address : Address)
    (first : Object) (object : List α → Object) (additions : List α)
    (reach : Nat) :
    (machine.withObject address first).filled address object additions reach =
      machine.filled address object additions reach := by
  unfold filled
  simp only [withObject_withObject]

/-- The outcome of additions to a new object on top. -/
def filledNew {α : Type} (machine : Machine) (object : List α → Object)
    (additions : List α) (reach : Nat) :
    EStateM.Result Failure Machine Unit :=
  if reach = additions.length then
    .ok () (machine.withNew (object additions))
  else
    .error (.refused .recursion)
      (machine.withNew (object (additions.take reach)))

theorem withNew_filled {α : Type} (machine : Machine) (first : Object)
    (object : List α → Object) (additions : List α) (reach : Nat) :
    (machine.withNew first).filled machine.heap.objects.size object additions
        reach =
      machine.filledNew object additions reach := by
  unfold filled filledNew
  simp only [withNew_withObject]

end Machine

namespace Execution

variable {options : Options} {nested : Decoding Value}
variable {machine : Machine} {address : Address} {below : List Value}

/-- Executes instructions one after the other. -/
def executeAll (options : Options) (nested : Decoding Value) :
    List Instruction → Execution Unit
  | [] => pure ()
  | instruction :: rest => do
      let _ ← execute options nested instruction
      executeAll options nested rest

/-- The code that pushes values above a mark and uses them up. -/
def above (items : List Value) (instruction : Instruction) :
    List Instruction :=
  .mark :: (items.map .push ++ [instruction])

theorem executeAll_append (first second : List Instruction) :
    executeAll options nested (first ++ second) =
      executeAll options nested first >>= fun _ =>
        executeAll options nested second := by
  induction first with
  | nil => rfl
  | cons instruction rest inductionHypothesis =>
      rw [List.cons_append, executeAll, executeAll, inductionHypothesis,
        bind_assoc]

theorem executeAll_push (options : Options) (nested : Decoding Value)
    (items : List Value) (machine : Machine) :
    executeAll options nested (items.map .push) machine =
      .ok () { machine with stack := items.reverse ++ machine.stack } := by
  induction items generalizing machine with
  | nil => rfl
  | cons item rest inductionHypothesis =>
      have pushed := inductionHypothesis
        { machine with stack := item :: machine.stack }
      rw [List.reverse_cons, List.append_assoc]
      exact pushed

/-- A single instruction that does not end the pickle. -/
theorem executeAll_proceed {instruction : Instruction}
    {action : Execution Unit}
    (isAction : execute options nested instruction =
      execute.proceed action) :
    executeAll options nested [instruction] = action := by
  funext machine
  rw [executeAll, isAction, execute.proceed, bind_assoc]
  cases outcome : action machine with
  | ok result after => rw [bind_of_eq_ok outcome]; rfl
  | error failure after => rw [bind_of_eq_error outcome]

theorem executeAll_above_eq (items : List Value) (instruction : Instruction)
    (machine : Machine) :
    executeAll options nested (above items instruction) machine =
      executeAll options nested [instruction]
        { machine with
          stack := items.reverse
          marks := machine.stack :: machine.marks } := by
  let marked : Machine :=
    { machine with stack := [], marks := machine.stack :: machine.marks }
  have pushed := executeAll_push options nested items marked
  have start : executeAll options nested (above items instruction) machine =
      executeAll options nested (items.map .push ++ [instruction]) marked :=
    rfl
  rw [start, executeAll_append, bind_of_eq_ok pushed, List.append_nil]

/-- The values above the mark go to the instruction, and the machine below is as
it was. -/
theorem executeAll_above {instruction : Instruction}
    (use : List Value → Execution Unit)
    (isUse : execute options nested instruction =
      execute.proceed (popMark >>= use))
    (items : List Value) (machine : Machine) :
    executeAll options nested (above items instruction) machine =
      use items machine := by
  have popped : popMark
      { machine with
        stack := items.reverse
        marks := machine.stack :: machine.marks } =
      .ok items.reverse.reverse machine := rfl
  rw [List.reverse_reverse] at popped
  rw [executeAll_above_eq, executeAll_proceed isUse, bind_of_eq_ok popped]

/-! ## Filling containers -/

/-- Values that are added at once: one of them, or some above a mark. -/
inductive Batch (α : Type)
  | one (item : α)
  | many (items : List α)

namespace Batch

variable {α : Type}

def items : Batch α → List α
  | one item => [item]
  | many items => items

/-- All that is added in batches. -/
def all (batches : List (Batch α)) : List α :=
  batches.flatMap items

/-- Keys and values in turn. -/
def inTurn (entries : List (Value × Value)) : List Value :=
  entries.flatMap fun (key, value) => [key, value]

def appending : Batch Value → List Instruction
  | one item => [.push item, .append]
  | many items => above items .appends

def setting : Batch (Value × Value) → List Instruction
  | one (key, value) => [.push key, .push value, .setItem]
  | many entries => above (inTurn entries) .setItems

/-- There is no instruction for a single member. -/
def adding (batch : Batch Value) : List Instruction :=
  above batch.items .addItems

end Batch

theorem pairUp?_inTurn (entries : List (Value × Value)) :
    pairUp? (Batch.inTurn entries) = some entries := by
  induction entries with
  | nil => rfl
  | cons entry rest inductionHypothesis =>
      show (pairUp? (Batch.inTurn rest)).map (entry :: ·) = _
      rw [inductionHypothesis]
      rfl

theorem pairUp?_of_odd {items : List Value} (odd : items.length % 2 = 1) :
    pairUp? items = none := by
  induction items using pairUp?.induct with
  | case1 => cases odd
  | case2 key value rest inductionHypothesis =>
      rw [List.length_cons, List.length_cons] at odd
      rw [pairUp?, inductionHypothesis (by omega)]
      rfl
  | case3 item => rfl

section Top

variable (stack : machine.stack = .object address :: below)
include stack

theorem peekObject?_of_top :
    peekObject? machine =
      .ok (some (address, machine.heap.get address)) machine := by
  obtain ⟨source, _, marks, memo, protocol, offset, history⟩ := machine
  cases stack
  rfl

theorem extendList_of_top {present : Array Value}
    (here : machine.heap.get address = .list present) (opcode : Opcode)
    (items : List Value) :
    extendList opcode items machine =
      .ok () (machine.withObject address
        (.list (present ++ items.toArray))) := by
  unfold extendList
  rw [bind_of_eq_ok (peekObject?_of_top stack), here]
  rfl

omit stack in
/-- What is within reach is written before the rest is refused. -/
theorem setReached_eq {α : Type} (machine : Machine) (address : Address)
    (object : List α → Object) (additions : List α) (reach : Nat) :
    (do
      setObject address (object (additions.take reach))
      checkReach reach additions.length) machine =
        machine.filled address object additions reach := by
  unfold checkReach Machine.filled
  split
  · next reached =>
      rw [reached, List.take_length]
      rfl
  · rfl

theorem extendDict_of_top {ordered : Bool}
    {present entries : List (Value × Value)} {items : List Value}
    (here : machine.heap.get address = .dict ordered present)
    (opcode : Opcode) (paired : pairUp? items = some entries)
    (hashable : ∀ entry ∈ entries,
      machine.heap.checkHashable entry.1 = .ok ()) :
    extendDict opcode items machine =
      machine.filled address
        (fun added => .dict ordered (Entries.merge present added)) entries
        (Entries.reach present entries) := by
  unfold extendDict
  rw [bind_of_eq_ok (peekObject?_of_top stack), here]
  refine (bind_of_eq_ok (entriesOf_eq machine.contents machine paired
    hashable)).trans ?_
  exact setReached_eq machine address
    (fun added => .dict ordered (Entries.merge present added)) entries _

theorem extendSet_of_top {present : List Value}
    (here : machine.heap.get address = .set present) {items : List Value}
    (hashable : ∀ item ∈ items, machine.heap.checkHashable item = .ok ()) :
    extendSet items machine =
      machine.filled address (fun added => .set (Members.merge present added))
        items (Members.reach present items) := by
  unfold extendSet
  rw [bind_of_eq_ok (peekObject?_of_top stack), here]
  refine (bind_of_eq_ok (checkHashable_eq machine hashable)).trans ?_
  exact setReached_eq machine address
    (fun added => .set (Members.merge present added)) items _

end Top

/-! ## One batch -/

theorem executeAll_appending_one (batch : Batch Value) (machine : Machine) :
    ∃ opcode, executeAll options nested batch.appending machine =
      extendList opcode batch.items machine := by
  cases batch with
  | one item =>
      let pushed : Machine := { machine with stack := item :: machine.stack }
      have popped : pop pushed = .ok item machine := rfl
      have start : executeAll options nested (Batch.one item).appending
          machine = executeAll options nested [.append] pushed := rfl
      have used : executeAll options nested [.append] =
          pop >>= fun value => extendList .append [value] :=
        executeAll_proceed rfl
      exact ⟨.append, by rw [start, used, bind_of_eq_ok popped]; rfl⟩
  | many items => exact ⟨.appends,
      executeAll_above (extendList .appends) rfl items machine⟩

theorem executeAll_setting_one (batch : Batch (Value × Value))
    (machine : Machine) :
    ∃ opcode, executeAll options nested batch.setting machine =
      extendDict opcode (Batch.inTurn batch.items) machine := by
  cases batch with
  | one entry =>
      obtain ⟨key, value⟩ := entry
      let under : Machine := { machine with stack := key :: machine.stack }
      let pushed : Machine := { under with stack := value :: under.stack }
      have popped : pop pushed = .ok value under := rfl
      have poppedKey : pop under = .ok key machine := rfl
      have start : executeAll options nested
          (Batch.one (key, value)).setting machine =
            executeAll options nested [.setItem] pushed := rfl
      have used : executeAll options nested [.setItem] =
          pop >>= fun value => pop >>= fun key =>
            extendDict .setItem [key, value] :=
        executeAll_proceed rfl
      exact ⟨.setItem, by
        rw [start, used, bind_of_eq_ok popped, bind_of_eq_ok poppedKey]; rfl⟩
  | many entries =>
      exact ⟨.setItems, executeAll_above (extendDict .setItems) rfl
        (Batch.inTurn entries) machine⟩

theorem executeAll_adding_one (batch : Batch Value) (machine : Machine) :
    executeAll options nested batch.adding machine =
      extendSet batch.items machine :=
  executeAll_above extendSet rfl batch.items machine

/-! ## All batches -/

/-- How many values can be added to others that have been added before: further
ones only after all of the first ones. -/
structure IsReach {α : Type} (reach : List α → List α → Nat) : Prop where
  le : ∀ added items, reach added items ≤ items.length
  append : ∀ added first rest, reach added (first ++ rest) =
    if reach added first = first.length then
      first.length + reach (added ++ first) rest
    else
      reach added first

/-- A batch of good values makes the object at the address the one with these
values as well, as far as they are within reach. -/
def Grows {α : Type} (options : Options) (nested : Decoding Value)
    (machine : Machine) (address : Address) (code : Batch α → List Instruction)
    (object : List α → Object) (reach : List α → List α → Nat)
    (good : α → Prop) : Prop :=
  ∀ (batch : Batch α) (added : List α), (∀ item ∈ batch.items, good item) →
    executeAll options nested (code batch)
        (machine.withObject address (object added)) =
      machine.filled address (fun items => object (added ++ items))
        batch.items (reach added batch.items)

namespace Grows

variable {α : Type} {code : Batch α → List Instruction}
variable {object : List α → Object} {reach : List α → List α → Nat}
variable {good : α → Prop}

/-- Once the first values are added, the rest decides. -/
theorem filled_append_of_reached (isReach : IsReach reach)
    {added first : List α} (reached : reach added first = first.length)
    (rest : List α) :
    machine.filled address (fun items => object (added ++ items))
        (first ++ rest) (reach added (first ++ rest)) =
      machine.filled address (fun items => object (added ++ first ++ items))
        rest (reach (added ++ first) rest) := by
  rw [isReach.append, if_pos reached]
  unfold Machine.filled
  rw [List.length_append]
  simp only [Nat.add_left_cancel_iff, List.take_length_add_append,
    List.append_assoc]

/-- Where the first values are not all within reach, no later one is added. -/
theorem filled_append_of_not_reached (isReach : IsReach reach)
    {added first : List α} (broken : reach added first ≠ first.length)
    (rest : List α) :
    machine.filled address (fun items => object (added ++ items))
        (first ++ rest) (reach added (first ++ rest)) =
      .error (.refused .recursion) (machine.withObject address
        (object (added ++ first.take (reach added first)))) := by
  have short := isReach.le added first
  have apart : reach added first ≠ (first ++ rest).length := by
    rw [List.length_append]
    omega
  rw [isReach.append, if_neg broken, Machine.filled, if_neg apart,
    List.take_append_of_le_length short]

theorem all (isReach : IsReach reach)
    (grows : Grows options nested machine address code object reach good)
    (batches : List (Batch α))
    (areGood : ∀ item ∈ Batch.all batches, good item) (added : List α) :
    executeAll options nested (batches.flatMap code)
        (machine.withObject address (object added)) =
      machine.filled address (fun items => object (added ++ items))
        (Batch.all batches) (reach added (Batch.all batches)) := by
  induction batches generalizing added with
  | nil =>
      have noBatch : Batch.all ([] : List (Batch α)) = [] := rfl
      have noReach : reach added [] = ([] : List α).length :=
        Nat.le_zero.mp (isReach.le added [])
      rw [noBatch, Machine.filled, if_pos noReach, List.append_nil]
      rfl
  | cons batch rest inductionHypothesis =>
      have parts : Batch.all (batch :: rest) =
          batch.items ++ Batch.all rest := List.flatMap_cons
      rw [parts] at areGood ⊢
      have first := grows batch added fun item member =>
        areGood item (List.mem_append_left _ member)
      have later := inductionHypothesis
        (fun item member => areGood item (List.mem_append_right _ member))
        (added ++ batch.items)
      rw [List.flatMap_cons, executeAll_append]
      by_cases reached : reach added batch.items = batch.items.length
      · rw [Machine.filled, if_pos reached] at first
        rw [bind_of_eq_ok first, later,
          filled_append_of_reached isReach reached]
      · rw [Machine.filled, if_neg reached] at first
        rw [bind_of_eq_error first,
          filled_append_of_not_reached isReach reached]

/-- Whatever the batches are, the object holds all of their values that are
within reach. -/
theorem fill (isReach : IsReach reach)
    (grows : Grows options nested machine address code object reach good)
    (here : machine.heap.get address = object [])
    (isObject : object [] ≠ .plain) {batches : List (Batch α)}
    (areGood : ∀ item ∈ Batch.all batches, good item) :
    executeAll options nested (batches.flatMap code) machine =
      machine.filled address object (Batch.all batches)
        (reach [] (Batch.all batches)) := by
  have filled := grows.all isReach batches areGood []
  rw [Machine.withObject_self here isObject] at filled
  exact filled

end Grows

section Top

variable (stack : machine.stack = .object address :: below)
include stack

/-- Values are added to a list in any batches. -/
theorem executeAll_appending {present : Array Value}
    (here : machine.heap.get address = .list present)
    (batches : List (Batch Value)) :
    executeAll options nested (batches.flatMap Batch.appending) machine =
      .ok () (machine.withObject address
        (.list (present ++ (Batch.all batches).toArray))) := by
  have bound := Heap.lt_size_of_get here Object.noConfusion
  have isReach : IsReach fun _ items : List Value => items.length :=
    ⟨fun _ _ => Nat.le_refl _, fun _ _ _ => by
      rw [if_pos rfl, List.length_append]⟩
  have grows : Grows options nested machine address Batch.appending
      (fun added => .list (present ++ added.toArray))
      (fun _ items => items.length) fun _ => True := by
    intro batch added _
    obtain ⟨opcode, done⟩ := executeAll_appending_one batch
      (machine.withObject address (.list (present ++ added.toArray)))
    have isTop : (machine.withObject address
        (.list (present ++ added.toArray))).stack =
          .object address :: below := stack
    rw [done, extendList_of_top isTop (Heap.get_set_self _ bound),
      Machine.withObject_withObject, append_toArray_append, Machine.filled,
      if_pos rfl]
  have filled : executeAll options nested (batches.flatMap Batch.appending)
      machine = machine.filled address
        (fun added => .list (present ++ added.toArray)) (Batch.all batches)
        (Batch.all batches).length :=
    grows.fill isReach (by simpa using here) Object.noConfusion
      fun _ _ => trivial
  rwa [Machine.filled, if_pos rfl] at filled

/-- Entries are bound in a mapping in any batches. -/
theorem executeAll_setting {ordered : Bool}
    {present : List (Value × Value)}
    (here : machine.heap.get address = .dict ordered present)
    {batches : List (Batch (Value × Value))}
    (hashable : ∀ entry ∈ Batch.all batches,
      machine.heap.checkHashable entry.1 = .ok ()) :
    executeAll options nested (batches.flatMap Batch.setting) machine =
      machine.filled address
        (fun added => .dict ordered (Entries.merge present added))
        (Batch.all batches) (Entries.reach present (Batch.all batches)) := by
  have bound := Heap.lt_size_of_get here Object.noConfusion
  have noHash : machine.heap.checkHashable (.object address) ≠ .ok () := by
    unfold Heap.checkHashable
    rw [here]
    rintro ⟨⟩
  have isReach : IsReach fun added items =>
      Entries.reach (Entries.merge present added) items :=
    ⟨fun _ _ => Entries.reach_le _ _, fun _ _ _ => by
      rw [Entries.reach_append, Entries.merge_append]⟩
  have grows : Grows options nested machine address Batch.setting
      (fun added => .dict ordered (Entries.merge present added))
      (fun added items => Entries.reach (Entries.merge present added) items)
      fun entry => machine.heap.checkHashable entry.1 = .ok () := by
    intro batch added areHashable
    obtain ⟨opcode, done⟩ := executeAll_setting_one batch
      (machine.withObject address
        (.dict ordered (Entries.merge present added)))
    have isTop : (machine.withObject address
        (.dict ordered (Entries.merge present added))).stack =
          .object address :: below := stack
    rw [done, extendDict_of_top isTop (Heap.get_set_self _ bound) opcode
      (pairUp?_inTurn batch.items) fun entry member =>
        Heap.hashable_set noHash (areHashable entry member),
      Machine.withObject_filled]
    simp only [Entries.merge_append]
  exact grows.fill isReach here Object.noConfusion hashable

/-- Members are added to a set in any batches. -/
theorem executeAll_adding {present : List Value}
    (here : machine.heap.get address = .set present)
    {batches : List (Batch Value)}
    (hashable : ∀ item ∈ Batch.all batches,
      machine.heap.checkHashable item = .ok ()) :
    executeAll options nested (batches.flatMap Batch.adding) machine =
      machine.filled address (fun added => .set (Members.merge present added))
        (Batch.all batches) (Members.reach present (Batch.all batches)) := by
  have bound := Heap.lt_size_of_get here Object.noConfusion
  have noHash : machine.heap.checkHashable (.object address) ≠ .ok () := by
    unfold Heap.checkHashable
    rw [here]
    rintro ⟨⟩
  have isReach : IsReach fun added items =>
      Members.reach (Members.merge present added) items :=
    ⟨fun _ _ => Members.reach_le _ _, fun _ _ _ => by
      rw [Members.reach_append, Members.merge_append]⟩
  have grows : Grows options nested machine address Batch.adding
      (fun added => .set (Members.merge present added))
      (fun added items => Members.reach (Members.merge present added) items)
      fun item => machine.heap.checkHashable item = .ok () := by
    intro batch added areHashable
    have isTop : (machine.withObject address
        (.set (Members.merge present added))).stack =
          .object address :: below := stack
    rw [executeAll_adding_one batch,
      extendSet_of_top isTop (Heap.get_set_self _ bound) fun item member =>
        Heap.hashable_set noHash (areHashable item member),
      Machine.withObject_filled]
    simp only [Members.merge_append]
  exact grows.fill isReach here Object.noConfusion hashable

end Top

/-! ## New containers -/

section New

variable (items : List Value) (machine : Machine)

theorem executeAll_above_list :
    executeAll options nested (above items .list) machine =
      pushNew (.list items.toArray) machine :=
  executeAll_above (fun items => pushNew (.list items.toArray)) rfl items
    machine

theorem executeAll_above_tuple :
    executeAll options nested (above items .tuple) machine =
      push (.tuple items) machine :=
  executeAll_above (fun items => push (.tuple items)) rfl items machine

theorem executeAll_above_dict :
    executeAll options nested (above items .dict) machine =
      (entriesOf items >>= fun entries =>
        checkReach (Entries.reach [] entries) entries.length >>= fun _ =>
          pushNew (.dict false (Entries.merge [] entries))) machine :=
  executeAll_above (fun items => entriesOf items >>= fun entries =>
    checkReach (Entries.reach [] entries) entries.length >>= fun _ =>
      pushNew (.dict false (Entries.merge [] entries))) rfl items machine

theorem executeAll_above_frozenSet :
    executeAll options nested (above items .frozenSet) machine =
      (checkHashable machine.heap items >>= fun _ =>
        checkReach (Members.reach [] items) items.length >>= fun _ =>
          push (.frozenset (Members.merge [] items))) machine :=
  executeAll_above (fun items => heap >>= fun heap =>
    checkHashable heap items >>= fun _ =>
      checkReach (Members.reach [] items) items.length >>= fun _ =>
        push (.frozenset (Members.merge [] items))) rfl items machine

/-- What comes after a check of the reach. -/
theorem checkReach_bind (reach count : Nat) (next : Unit → Execution Unit) :
    (checkReach reach count >>= next) machine =
      if reach = count then next () machine
      else .error (.refused .recursion) machine := by
  unfold checkReach
  split <;> rfl

/-- A tuple of so many values. -/
theorem executeAll_tupleOf :
    executeAll options nested
        (items.map .push ++ [.tupleOf items.length]) machine =
      push (.tuple items) machine := by
  have used : executeAll options nested [.tupleOf items.length] =
      popMany items.length >>= fun items => push (.tuple items) :=
    executeAll_proceed rfl
  let pushed : Machine :=
    { machine with stack := items.reverse ++ machine.stack }
  have enough : ¬ pushed.stack.length < items.length := by
    rw [List.length_append, List.length_reverse]
    omega
  have taken : pushed.stack.take items.length = items.reverse :=
    List.take_left' List.length_reverse
  have dropped : pushed.stack.drop items.length = machine.stack :=
    List.drop_left' List.length_reverse
  have popped := popMany_of_le enough
  rw [taken, dropped, List.reverse_reverse] at popped
  rw [executeAll_append,
    bind_of_eq_ok (executeAll_push options nested items machine), used,
    bind_of_eq_ok popped]

end New

/-- The value mentions objects of the heap only. -/
def Knows (heap : Heap) (value : Value) : Prop :=
  ∀ address ∈ value.addresses, address < heap.objects.size

/-- The empty list filled with the values is a new list of them. -/
theorem executeAll_newList (batches : List (Batch Value))
    (machine : Machine) :
    executeAll options nested
        (.pushObject (.list #[]) :: batches.flatMap Batch.appending)
        machine =
      .ok () (machine.withNew (.list (Batch.all batches).toArray)) := by
  have isTop : (machine.withNew (.list #[])).stack =
      .object machine.heap.objects.size :: machine.stack := rfl
  have here : (machine.withNew (.list #[])).heap.get
      machine.heap.objects.size = .list #[] :=
    Heap.get_alloc_self machine.heap _
  refine (executeAll_appending isTop here batches).trans ?_
  rw [Machine.withNew_withObject, Array.empty_append]

/-- The empty mapping filled with entries is a new mapping of them. -/
theorem executeAll_newDict {batches : List (Batch (Value × Value))}
    (hashable : ∀ entry ∈ Batch.all batches,
      machine.heap.checkHashable entry.1 = .ok ())
    (known : ∀ entry ∈ Batch.all batches, Knows machine.heap entry.1) :
    executeAll options nested
        (.pushObject (.dict false []) :: batches.flatMap Batch.setting)
        machine =
      machine.filledNew (fun added => .dict false (Entries.merge [] added))
        (Batch.all batches) (Entries.reach [] (Batch.all batches)) := by
  have isTop : (machine.withNew (.dict false [])).stack =
      .object machine.heap.objects.size :: machine.stack := rfl
  have here : (machine.withNew (.dict false [])).heap.get
      machine.heap.objects.size = .dict false [] :=
    Heap.get_alloc_self machine.heap _
  refine (executeAll_setting isTop here fun entry member => ?_).trans ?_
  · exact Heap.hashable_alloc _ (known entry member) (hashable entry member)
  · exact Machine.withNew_filled _ _ _ _ _

/-- The empty set filled with members is a new set of them. -/
theorem executeAll_newSet {batches : List (Batch Value)}
    (hashable : ∀ item ∈ Batch.all batches,
      machine.heap.checkHashable item = .ok ())
    (known : ∀ item ∈ Batch.all batches, Knows machine.heap item) :
    executeAll options nested
        (.pushObject (.set []) :: batches.flatMap Batch.adding) machine =
      machine.filledNew (fun added => .set (Members.merge [] added))
        (Batch.all batches) (Members.reach [] (Batch.all batches)) := by
  have isTop : (machine.withNew (.set [])).stack =
      .object machine.heap.objects.size :: machine.stack := rfl
  have here : (machine.withNew (.set [])).heap.get
      machine.heap.objects.size = .set [] :=
    Heap.get_alloc_self machine.heap _
  refine (executeAll_adding isTop here fun item member => ?_).trans ?_
  · exact Heap.hashable_alloc _ (known item member) (hashable item member)
  · exact Machine.withNew_filled _ _ _ _ _

/-! ## Refusals -/

theorem checkHashable_refused {heap : Heap} {items : List Value}
    (refused : ∃ item ∈ items, ∃ refusal,
      heap.checkHashable item = .error refusal) :
    ∃ failure, ∀ machine : Machine,
      checkHashable heap items machine = .error failure machine := by
  induction items with
  | nil =>
      obtain ⟨_, member, _⟩ := refused
      cases member
  | cons item rest inductionHypothesis =>
      have unfolded : checkHashable heap (item :: rest) =
          (_ >>= fun _ => checkHashable heap rest) :=
        rfl
      rw [unfolded]
      dsimp only
      cases first : heap.checkHashable item with
      | error refusal =>
          cases refusal <;> exact ⟨_, fun _ => rfl⟩
      | ok =>
          obtain ⟨other, member, refusal, failed⟩ := refused
          rcases List.mem_cons.mp member with rfl | later
          · cases first.symm.trans failed
          · exact inductionHypothesis ⟨other, later, refusal, failed⟩

theorem entriesOf_odd {items : List Value} (odd : items.length % 2 = 1)
    (machine : Machine) :
    entriesOf items machine = .error (.ofCause .oddItems) machine := by
  rw [entriesOf, pairUp?_of_odd odd]
  rfl

/-- Neither container has taken anything in where the pairing fails. -/
theorem refused_of_entriesOf {items : List Value} {failure : Failure}
    (refused : entriesOf items machine = .error failure machine) :
    (∀ {address below ordered present},
      machine.stack = .object address :: below →
      machine.heap.get address = .dict ordered present →
      executeAll options nested (above items .setItems) machine =
        .error failure machine) ∧
    executeAll options nested (above items .dict) machine =
      .error failure machine := by
  constructor
  · intro address below ordered present stack here
    have used : executeAll options nested (above items .setItems) machine =
        extendDict .setItems items machine :=
      executeAll_above (extendDict .setItems) rfl items machine
    rw [used, extendDict, bind_of_eq_ok (peekObject?_of_top stack), here]
    exact bind_of_eq_error refused
  · rw [executeAll_above_dict]
    exact bind_of_eq_error refused

theorem refused_of_checkHashable {items : List Value} {failure : Failure}
    (refused : checkHashable machine.heap items machine =
      .error failure machine) :
    (∀ {address below present},
      machine.stack = .object address :: below →
      machine.heap.get address = .set present →
      executeAll options nested (above items .addItems) machine =
        .error failure machine) ∧
    executeAll options nested (above items .frozenSet) machine =
      .error failure machine := by
  constructor
  · intro address below present stack here
    have used : executeAll options nested (above items .addItems) machine =
        extendSet items machine :=
      executeAll_above extendSet rfl items machine
    have looked : heap machine = .ok machine.heap machine := rfl
    rw [used, extendSet, bind_of_eq_ok (peekObject?_of_top stack), here]
    exact (bind_of_eq_ok looked).trans (bind_of_eq_error refused)
  · rw [executeAll_above_frozenSet]
    exact bind_of_eq_error refused

/-! ## Agreement -/

/-- Whatever batches values are added in, a container ends with the same
contents in the same machine, and so does one that is made of the values above a
mark. A batch that cannot be added leaves the machine as it was below the
mark. The recursion of comparisons is the one limit: a key beyond it is the first
that is not added, in whatever batch it is. -/
structure BatchesAgree (options : Options) (nested : Decoding Value)
    (machine : Machine) : Prop where
  appends : ∀ {address below present},
    machine.stack = .object address :: below →
    machine.heap.get address = .list present →
    ∀ batches : List (Batch Value),
      executeAll options nested (batches.flatMap Batch.appending) machine =
        .ok () (machine.withObject address
          (.list (present ++ (Batch.all batches).toArray)))
  setItems : ∀ {address below ordered present},
    machine.stack = .object address :: below →
    machine.heap.get address = .dict ordered present →
    ∀ batches : List (Batch (Value × Value)),
      (∀ entry ∈ Batch.all batches,
        machine.heap.checkHashable entry.1 = .ok ()) →
      executeAll options nested (batches.flatMap Batch.setting) machine =
        machine.filled address
          (fun added => .dict ordered (Entries.merge present added))
          (Batch.all batches) (Entries.reach present (Batch.all batches))
  addItems : ∀ {address below present},
    machine.stack = .object address :: below →
    machine.heap.get address = .set present →
    ∀ batches : List (Batch Value),
      (∀ item ∈ Batch.all batches,
        machine.heap.checkHashable item = .ok ()) →
      executeAll options nested (batches.flatMap Batch.adding) machine =
        machine.filled address
          (fun added => .set (Members.merge present added))
          (Batch.all batches) (Members.reach present (Batch.all batches))
  /-- Of equal keys the first one is kept, where it is, with the last value. -/
  repeated : ∀ (present earlier later : List (Value × Value))
      (key value : Value),
    (∃ last, (Entries.merge present (earlier ++ (key, value) :: later))[
        Entries.place key (Entries.merge present earlier)]? =
      some (Entries.boundKey key (Entries.merge present earlier), last)) ∧
    (Entries.Spares (Entries.merge present (earlier ++ [(key, value)])) later
        (Entries.place key (Entries.merge present earlier)) →
      (Entries.merge present (earlier ++ (key, value) :: later))[
          Entries.place key (Entries.merge present earlier)]? =
        some (Entries.boundKey key (Entries.merge present earlier), value))
  list : ∀ batches : List (Batch Value),
    executeAll options nested (above (Batch.all batches) .list) machine =
        .ok () (machine.withNew (.list (Batch.all batches).toArray)) ∧
      executeAll options nested
          (.pushObject (.list #[]) :: batches.flatMap Batch.appending)
          machine =
        .ok () (machine.withNew (.list (Batch.all batches).toArray))
  dict : ∀ batches : List (Batch (Value × Value)),
    (∀ entry ∈ Batch.all batches,
      machine.heap.checkHashable entry.1 = .ok () ∧
        Knows machine.heap entry.1) →
    executeAll options nested
          (above (Batch.inTurn (Batch.all batches)) .dict) machine =
        (if Entries.reach [] (Batch.all batches) =
            (Batch.all batches).length then
          .ok () (machine.withNew
            (.dict false (Entries.merge [] (Batch.all batches))))
        else
          .error (.refused .recursion) machine) ∧
      executeAll options nested
          (.pushObject (.dict false []) :: batches.flatMap Batch.setting)
          machine =
        machine.filledNew (fun added => .dict false (Entries.merge [] added))
          (Batch.all batches) (Entries.reach [] (Batch.all batches))
  frozenSet : ∀ batches : List (Batch Value),
    (∀ item ∈ Batch.all batches,
      machine.heap.checkHashable item = .ok () ∧ Knows machine.heap item) →
    executeAll options nested (above (Batch.all batches) .frozenSet)
          machine =
        (if Members.reach [] (Batch.all batches) =
            (Batch.all batches).length then
          .ok () { machine with
            stack := .frozenset (Members.merge [] (Batch.all batches)) ::
              machine.stack }
        else
          .error (.refused .recursion) machine) ∧
      executeAll options nested
          (.pushObject (.set []) :: batches.flatMap Batch.adding) machine =
        machine.filledNew (fun added => .set (Members.merge [] added))
          (Batch.all batches) (Members.reach [] (Batch.all batches))
  tuple : ∀ (items : List Value) {opcode : Opcode},
    tupleSize? opcode = some items.length →
    ∃ instruction,
      Instruction.ofOpcode options.rules opcode = pure instruction ∧
        executeAll options nested (items.map .push ++ [instruction])
            machine =
          .ok () { machine with stack := .tuple items :: machine.stack } ∧
        executeAll options nested (above items .tuple) machine =
          .ok () { machine with stack := .tuple items :: machine.stack }
  /-- A key without a value is refused, and so is a key without a hash. -/
  noEntries : ∀ items : List Value,
    (items.length % 2 = 1 ∨
      ∃ entries : List (Value × Value), items = Batch.inTurn entries ∧
        ∃ entry ∈ entries, ∃ refusal,
          machine.heap.checkHashable entry.1 = .error refusal) →
    ∃ failure,
      (∀ {address below ordered present},
        machine.stack = .object address :: below →
        machine.heap.get address = .dict ordered present →
        executeAll options nested (above items .setItems) machine =
          .error failure machine) ∧
      executeAll options nested (above items .dict) machine =
        .error failure machine
  noMembers : ∀ items : List Value,
    (∃ item ∈ items, ∃ refusal,
      machine.heap.checkHashable item = .error refusal) →
    ∃ failure,
      (∀ {address below present},
        machine.stack = .object address :: below →
        machine.heap.get address = .set present →
        executeAll options nested (above items .addItems) machine =
          .error failure machine) ∧
      executeAll options nested (above items .frozenSet) machine =
        .error failure machine

theorem batches_agree (options : Options) (nested : Decoding Value)
    (machine : Machine) : BatchesAgree options nested machine where
  appends stack here batches := executeAll_appending stack here batches
  setItems stack here _ hashable := executeAll_setting stack here hashable
  addItems stack here _ hashable := executeAll_adding stack here hashable
  repeated present earlier later key value :=
    ⟨Entries.first_key_kept present earlier later key value,
      Entries.last_value_kept⟩
  list batches := ⟨executeAll_above_list _ machine,
    executeAll_newList batches machine⟩
  dict := by
    intro batches good
    have hashable := fun entry member => (good entry member).1
    have paired := entriesOf_eq machine.contents machine
      (pairUp?_inTurn (Batch.all batches)) hashable
    refine ⟨?_, executeAll_newDict hashable
      fun entry member => (good entry member).2⟩
    rw [executeAll_above_dict]
    exact (bind_of_eq_ok paired).trans (checkReach_bind machine _ _ _)
  frozenSet := by
    intro batches good
    have hashable := fun item member => (good item member).1
    have checked := checkHashable_eq machine hashable
    refine ⟨?_, executeAll_newSet hashable
      fun item member => (good item member).2⟩
    rw [executeAll_above_frozenSet]
    exact (bind_of_eq_ok checked).trans (checkReach_bind machine _ _ _)
  tuple := by
    intro items opcode isSize
    exact ⟨_, ofOpcode_of_tupleSize? isSize,
      executeAll_tupleOf items machine, executeAll_above_tuple items machine⟩
  noEntries := by
    rintro items (odd | ⟨entries, rfl, entry, member, refusal, failed⟩)
    · exact ⟨_, refused_of_entriesOf (entriesOf_odd odd machine)⟩
    · obtain ⟨failure, refused⟩ := checkHashable_refused
        ⟨entry.1, List.mem_map_of_mem member, refusal, failed⟩
      have looked : heap machine = .ok machine.heap machine := rfl
      have unpaired : entriesOf (Batch.inTurn entries) machine =
          .error failure machine := by
        rw [entriesOf, pairUp?_inTurn]
        exact (bind_of_eq_ok looked).trans
          (bind_of_eq_error (refused machine))
      exact ⟨failure, refused_of_entriesOf unpaired⟩
  noMembers := by
    intro items unhashable
    obtain ⟨failure, refused⟩ := checkHashable_refused unhashable
    exact ⟨failure, refused_of_checkHashable (refused machine)⟩

/-- A mapping on top that is empty. -/
def emptyMapping : Machine where
  source := ⟨.ofBytes [], { Heap.empty with objects := #[.dict false []] }⟩
  stack := [.object 0]
  marks := [[]]
  memo := []
  protocol := 2
  offset := 0
  history? := none

/-- One, one as a floating-point number, and the truth are the same key. The
mapping itself may be a value of its own. -/
def equalKeys : List (Batch (Value × Value)) :=
  [.one (.int 1, .object 0),
    .many [(.float ⟨0x3FF0000000000000⟩ 0, .none), (.bool true, .object 0)]]

theorem batches_agree_equalKeys :
    executeAll .standard (nestedPickle .standard)
        (equalKeys.flatMap Batch.setting) emptyMapping =
      .ok () (emptyMapping.withObject 0
        (.dict false [(.int 1, .object 0)])) := by
  have hashable : ∀ entry ∈ Batch.all equalKeys,
      emptyMapping.heap.checkHashable entry.1 = .ok () := by
    simp [equalKeys, Batch.all, Batch.items, Heap.checkHashable]
  have merged : Entries.merge [] (Batch.all equalKeys) =
      [(.int 1, .object 0)] := by
    rfl
  rw [← merged]
  exact (batches_agree .standard (nestedPickle .standard)
    emptyMapping).setItems rfl rfl equalKeys hashable

end Execution

end PickleGraph
