import PickleGraph.Proofs.Heap.Object
import PickleGraph.Proofs.Machine.Passage

/-!
# Effects of instructions

What the instructions for plain data, for the memo and for instances make of the
contents of a machine. A name is replaced by the type that it is registered as,
a type by an instance of it, and the state of a record by its fields.
-/

namespace PickleGraph

open Actions

namespace Execution

variable {options : Options} {stack : List Value}
variable {marks : List (List Value)} {memo : List (Nat × Value)} {heap : Heap}

theorem effect_protocol (version : Nat) :
    Effect options (.protocol version) ⟨stack, marks, memo, heap⟩
      ⟨stack, marks, memo, heap⟩ :=
  fun _ _ => ⟨_, rfl, rfl, rfl⟩

/-! ## New values -/

theorem effect_push (value : Value) :
    Effect options (.push value) ⟨stack, marks, memo, heap⟩
      ⟨value :: stack, marks, memo, heap⟩ :=
  fun _ _ => ⟨_, rfl, rfl, rfl⟩

theorem effect_pushFloat (number : Binary64) :
    Effect options (.pushFloat number) ⟨stack, marks, memo, heap⟩
      ⟨(heap.float number).1 :: stack, marks, memo,
        (heap.float number).2⟩ :=
  fun _ _ => ⟨_, rfl, rfl, rfl⟩

theorem effect_pushObject (object : Object) :
    Effect options (.pushObject object) ⟨stack, marks, memo, heap⟩
      ⟨.object heap.objects.size :: stack, marks, memo,
        (heap.alloc object).2⟩ :=
  fun _ _ => ⟨_, rfl, rfl, rfl⟩

theorem effect_mark :
    Effect options .mark ⟨stack, marks, memo, heap⟩
      ⟨[], stack :: marks, memo, heap⟩ :=
  fun _ _ => ⟨_, rfl, rfl, rfl⟩

/-- Values above a mark are taken in the order in which they were pushed. -/
theorem effect_of_reverse {instruction : Instruction} {items : List Value}
    (after : List Value → Contents)
    (effect : ∀ top : List Value,
      top.reverse = items →
        Effect options instruction ⟨top, stack :: marks, memo, heap⟩
          (after top.reverse)) :
    Effect options instruction ⟨items.reverse, stack :: marks, memo, heap⟩
      (after items) := by
  have effect := effect items.reverse items.reverse_reverse
  rwa [List.reverse_reverse] at effect

theorem effect_tuple (items : List Value) :
    Effect options .tuple ⟨items.reverse, stack :: marks, memo, heap⟩
      ⟨.tuple items :: stack, marks, memo, heap⟩ :=
  effect_of_reverse (fun items =>
      ⟨.tuple items :: stack, marks, memo, heap⟩)
    fun _ _ _ _ => ⟨_, rfl, rfl, rfl⟩

theorem effect_list (items : List Value) :
    Effect options .list ⟨items.reverse, stack :: marks, memo, heap⟩
      ⟨.object heap.objects.size :: stack, marks, memo,
        (heap.alloc (.list items.toArray)).2⟩ :=
  effect_of_reverse (fun items =>
      ⟨.object heap.objects.size :: stack, marks, memo,
        (heap.alloc (.list items.toArray)).2⟩)
    fun _ _ _ _ => ⟨_, rfl, rfl, rfl⟩

theorem effect_tupleOf {items : List Value} {size : Nat}
    (length : items.length = size) :
    Effect options (.tupleOf size)
      ⟨items.reverse ++ stack, marks, memo, heap⟩
      ⟨.tuple items :: stack, marks, memo, heap⟩ := by
  intro nested machine
  have long : ¬ (items.reverse ++ stack).length < size := by
    rw [List.length_append, List.length_reverse]
    omega
  have taken : (items.reverse ++ stack).take size = items.reverse :=
    List.take_left' (by rw [List.length_reverse, length])
  have dropped : (items.reverse ++ stack).drop size = stack :=
    List.drop_left' (by rw [List.length_reverse, length])
  have popped := popMany_of_le (show ¬ (machine.holding
    ⟨items.reverse ++ stack, marks, memo, heap⟩).stack.length < size from long)
  refine ⟨_, bind_of_eq_ok (bind_of_eq_ok popped), ?_, rfl⟩
  show Contents.mk
    (.tuple ((items.reverse ++ stack).take size).reverse ::
      (items.reverse ++ stack).drop size) _ _ _ = _
  rw [taken, dropped, List.reverse_reverse]
  rfl

/-! ## The memo -/

theorem effect_get {slot : Int} {value : Value} (natural : 0 ≤ slot)
    (bound : memo.lookup slot.toNat = some value) :
    Effect options (.get slot) ⟨stack, marks, memo, heap⟩
      ⟨value :: stack, marks, memo, heap⟩ := by
  intro nested machine
  have found : memoGet slot (machine.holding ⟨stack, marks, memo, heap⟩) =
      .ok value (machine.holding ⟨stack, marks, memo, heap⟩) := by
    rw [memoGet, get_bind]
    dsimp only [Machine.holding]
    rw [if_neg (Int.not_lt.mpr natural), bound]
    rfl
  exact ⟨_, bind_of_eq_ok (bind_of_eq_ok found), rfl, rfl⟩

theorem effect_put {slot : Int} {top : Value} (natural : 0 ≤ slot) :
    Effect options (.put slot) ⟨top :: stack, marks, memo, heap⟩
      ⟨top :: stack, marks, Memo.insert slot.toNat top memo, heap⟩ := by
  intro nested machine
  refine ⟨machine.holding
    ⟨top :: stack, marks, Memo.insert slot.toNat top memo, heap⟩, ?_, rfl,
    rfl⟩
  rw [execute, if_neg (Int.not_lt.mpr natural)]
  rfl

theorem effect_memoize {top : Value} :
    Effect options .memoize ⟨top :: stack, marks, memo, heap⟩
      ⟨top :: stack, marks, Memo.insert memo.length top memo, heap⟩ :=
  fun _ _ => ⟨_, rfl, rfl, rfl⟩

/-! ## Lists -/

variable {address : Address}

theorem peekObject?_eq (machine : Machine) {object : Object}
    (here : heap.get address = object) :
    peekObject? (machine.holding ⟨.object address :: stack, marks, memo, heap⟩)
      = .ok (some (address, object))
          (machine.holding ⟨.object address :: stack, marks, memo, heap⟩) := by
  subst here
  rfl

theorem extendList_eq {opcode : Opcode} {present : Array Value}
    {items : List Value} (machine : Machine)
    (here : heap.get address = .list present) :
    extendList opcode items
        (machine.holding ⟨.object address :: stack, marks, memo, heap⟩) =
      .ok () (machine.holding ⟨.object address :: stack, marks, memo,
        heap.set address (.list (present ++ items.toArray))⟩) :=
  bind_of_eq_ok (peekObject?_eq machine here)

theorem effect_append {present : Array Value} {item : Value}
    (here : heap.get address = .list present) :
    Effect options .append ⟨item :: .object address :: stack, marks, memo, heap⟩
      ⟨.object address :: stack, marks, memo,
        heap.set address (.list (present ++ [item].toArray))⟩ :=
  fun _ machine => ⟨_, bind_of_eq_ok (extendList_eq machine here), rfl, rfl⟩

theorem effect_appends {present : Array Value} {items : List Value}
    (here : heap.get address = .list present) :
    Effect options .appends
      ⟨items.reverse, (.object address :: stack) :: marks, memo, heap⟩
      ⟨.object address :: stack, marks, memo,
        heap.set address (.list (present ++ items.toArray))⟩ :=
  effect_of_reverse (fun items =>
      ⟨.object address :: stack, marks, memo,
        heap.set address (.list (present ++ items.toArray))⟩)
    fun _ _ _ machine =>
      ⟨_, bind_of_eq_ok (extendList_eq machine here), rfl, rfl⟩

/-! ## Mappings and sets -/

theorem checkHashable_eq {items : List Value} (machine : Machine)
    (hashable : ∀ item ∈ items, heap.checkHashable item = .ok ()) :
    checkHashable heap items machine = .ok () machine := by
  induction items with
  | nil => rfl
  | cons item rest inductionHypothesis =>
      have first := hashable item List.mem_cons_self
      have others := inductionHypothesis fun other member =>
        hashable other (List.mem_cons_of_mem item member)
      have unfolded : checkHashable heap (item :: rest) machine =
          (_ >>= fun _ => checkHashable heap rest) machine :=
        rfl
      rw [unfolded]
      dsimp only
      rw [first]
      exact others

theorem entriesOf_eq (contents : Contents) {items : List Value}
    {entries : List (Value × Value)} (machine : Machine)
    (paired : pairUp? items = some entries)
    (hashable : ∀ entry ∈ entries,
      contents.heap.checkHashable entry.1 = .ok ()) :
    entriesOf items (machine.holding contents) =
      .ok entries (machine.holding contents) := by
  have checked : checkHashable contents.heap (entries.map (·.1))
      (machine.holding contents) = .ok () (machine.holding contents) := by
    refine checkHashable_eq _ fun key member => ?_
    obtain ⟨entry, entryMember, rfl⟩ := List.mem_map.mp member
    exact hashable entry entryMember
  rw [entriesOf, paired]
  exact bind_of_eq_ok checked

theorem checkReach_eq {reach count : Nat} (within : reach = count)
    (machine : Machine) : checkReach reach count machine = .ok () machine := by
  rw [checkReach, if_pos within]
  rfl

theorem extendDict_eq {opcode : Opcode} {ordered : Bool}
    {present entries : List (Value × Value)}
    {items : List Value} (machine : Machine)
    (here : heap.get address = .dict ordered present)
    (paired : pairUp? items = some entries)
    (hashable : ∀ entry ∈ entries, heap.checkHashable entry.1 = .ok ())
    (within : Entries.reach present entries = entries.length) :
    extendDict opcode items
        (machine.holding ⟨.object address :: stack, marks, memo, heap⟩) =
      .ok () (machine.holding ⟨.object address :: stack, marks, memo,
        heap.set address (.dict ordered (Entries.merge present entries))⟩) := by
  have checked := entriesOf_eq ⟨.object address :: stack, marks, memo, heap⟩
    machine paired hashable
  refine (bind_of_eq_ok (peekObject?_eq machine here)).trans
    ((bind_of_eq_ok checked).trans ?_)
  rw [within, List.take_length]
  exact (bind_of_eq_ok rfl).trans (checkReach_eq rfl _)

theorem effect_setItem {ordered : Bool} {present : List (Value × Value)}
    {key value : Value} (here : heap.get address = .dict ordered present)
    (hashable : heap.checkHashable key = .ok ())
    (within : Entries.reach present [(key, value)] = 1) :
    Effect options .setItem
      ⟨value :: key :: .object address :: stack, marks, memo, heap⟩
      ⟨.object address :: stack, marks, memo,
        heap.set address
          (.dict ordered (Entries.merge present [(key, value)]))⟩ := by
  have keyHashable : ∀ entry ∈ [(key, value)],
      heap.checkHashable entry.1 = .ok () := by
    intro entry member
    rw [List.mem_singleton.mp member]
    exact hashable
  exact fun _ machine =>
    ⟨_, bind_of_eq_ok (extendDict_eq machine here rfl keyHashable within),
      rfl, rfl⟩

theorem effect_setItems {ordered : Bool}
    {present entries : List (Value × Value)} {items : List Value}
    (here : heap.get address = .dict ordered present)
    (paired : pairUp? items = some entries)
    (hashable : ∀ entry ∈ entries, heap.checkHashable entry.1 = .ok ())
    (within : Entries.reach present entries = entries.length) :
    Effect options .setItems
      ⟨items.reverse, (.object address :: stack) :: marks, memo, heap⟩
      ⟨.object address :: stack, marks, memo,
        heap.set address
          (.dict ordered (Entries.merge present entries))⟩ :=
  effect_of_reverse (fun _ =>
      ⟨.object address :: stack, marks, memo,
        heap.set address (.dict ordered (Entries.merge present entries))⟩)
    fun _ same _ machine =>
      ⟨_, bind_of_eq_ok (extendDict_eq machine here (same ▸ paired)
        hashable within), rfl, rfl⟩

theorem effect_dict {entries : List (Value × Value)} {items : List Value}
    (paired : pairUp? items = some entries)
    (hashable : ∀ entry ∈ entries, heap.checkHashable entry.1 = .ok ())
    (within : Entries.reach [] entries = entries.length) :
    Effect options .dict ⟨items.reverse, stack :: marks, memo, heap⟩
      ⟨.object heap.objects.size :: stack, marks, memo,
        (heap.alloc (.dict false (Entries.merge [] entries))).2⟩ :=
  effect_of_reverse (fun _ =>
      ⟨.object heap.objects.size :: stack, marks, memo,
        (heap.alloc (.dict false (Entries.merge [] entries))).2⟩)
    fun _ same _ machine => by
      have checked := entriesOf_eq ⟨stack, marks, memo, heap⟩ machine
        (same ▸ paired) hashable
      exact ⟨machine.holding ⟨.object heap.objects.size :: stack, marks, memo,
          (heap.alloc (.dict false (Entries.merge [] entries))).2⟩,
        bind_of_eq_ok ((bind_of_eq_ok rfl).trans
          ((bind_of_eq_ok checked).trans
            (bind_of_eq_ok (checkReach_eq within _)))), rfl, rfl⟩

theorem extendSet_eq {present items : List Value} (machine : Machine)
    (here : heap.get address = .set present)
    (hashable : ∀ item ∈ items, heap.checkHashable item = .ok ())
    (within : Members.reach present items = items.length) :
    extendSet items
        (machine.holding ⟨.object address :: stack, marks, memo, heap⟩) =
      .ok () (machine.holding ⟨.object address :: stack, marks, memo,
        heap.set address (.set (Members.merge present items))⟩) := by
  refine (bind_of_eq_ok (peekObject?_eq machine here)).trans
    ((bind_of_eq_ok (checkHashable_eq _ hashable)).trans ?_)
  rw [within, List.take_length]
  exact (bind_of_eq_ok rfl).trans (checkReach_eq rfl _)

theorem effect_addItems {present items : List Value}
    (here : heap.get address = .set present)
    (hashable : ∀ item ∈ items, heap.checkHashable item = .ok ())
    (within : Members.reach present items = items.length) :
    Effect options .addItems
      ⟨items.reverse, (.object address :: stack) :: marks, memo, heap⟩
      ⟨.object address :: stack, marks, memo,
        heap.set address (.set (Members.merge present items))⟩ :=
  effect_of_reverse (fun items =>
      ⟨.object address :: stack, marks, memo,
        heap.set address (.set (Members.merge present items))⟩)
    fun _ same _ machine =>
      ⟨_, bind_of_eq_ok (extendSet_eq machine here (same ▸ hashable)
        (same ▸ within)), rfl, rfl⟩

theorem effect_frozenSet {items : List Value}
    (hashable : ∀ item ∈ items, heap.checkHashable item = .ok ())
    (within : Members.reach [] items = items.length) :
    Effect options .frozenSet ⟨items.reverse, stack :: marks, memo, heap⟩
      ⟨.frozenset (Members.merge [] items) :: stack, marks, memo, heap⟩ :=
  effect_of_reverse (fun items =>
      ⟨.frozenset (Members.merge [] items) :: stack, marks, memo, heap⟩)
    fun top same _ machine => by
      have topHashable : ∀ item ∈ top.reverse,
          heap.checkHashable item = .ok () := same ▸ hashable
      have checked := checkHashable_eq
        (machine.holding ⟨stack, marks, memo, heap⟩) topHashable
      exact ⟨machine.holding ⟨.frozenset (Members.merge [] top.reverse) ::
          stack, marks, memo, heap⟩,
        bind_of_eq_ok ((bind_of_eq_ok rfl).trans ((bind_of_eq_ok rfl).trans
          ((bind_of_eq_ok checked).trans
            (bind_of_eq_ok (checkReach_eq (same ▸ within) _))))), rfl, rfl⟩

/-! ## Preludes -/

/-- A stream may announce a protocol first. -/
inductive Prelude : Bytes → Prop
  | none : Prelude []
  | protocol {version : Nat} : version ≤ Opcode.highestProtocol →
      Prelude [Opcode.proto.code, UInt8.ofNat version]

theorem executes_prelude {prelude_ : Bytes} (contents : Contents)
    (isPrelude : Prelude prelude_) :
    Executes options prelude_ contents contents := by
  cases isPrelude with
  | none => exact .nil contents
  | protocol bound =>
      exact .of_effect (Instruction.takes_protocolVersion bound)
        (effect_protocol _)

/-! ## Values above a mark -/

/-- The opcodes for tuples of a fixed size. -/
def tupleSize? : Opcode → Option Nat
  | .tuple1 => some 1
  | .tuple2 => some 2
  | .tuple3 => some 3
  | _ => none

/-- Code between a mark and the opcode that uses up the values above it. -/
def marked (code : Bytes) (opcode : Opcode) : Bytes :=
  Opcode.mark.code :: (code ++ [opcode.code])

theorem ofOpcode_of_tupleSize? {rules : TextRules} {opcode : Opcode}
    {size : Nat} (isSize : tupleSize? opcode = some size) :
    Instruction.ofOpcode rules opcode = pure (.tupleOf size) := by
  cases opcode <;> cases isSize <;> rfl

/-- The values of a part are above the mark when the part is over. -/
theorem executes_marked {code : Bytes} {opcode : Opcode}
    {instruction : Instruction} {stack : List Value}
    {marks : List (List Value)} {memo further : List (Nat × Value)}
    {heap middle : Heap} {values : List Value} {after : Contents}
    (run : Executes options code ⟨[], stack :: marks, memo, heap⟩
      ⟨values.reverse ++ [], stack :: marks, further, middle⟩)
    (noArgument : Instruction.ofOpcode options.rules opcode =
      pure instruction)
    (effect : Effect options instruction
      ⟨values.reverse, stack :: marks, further, middle⟩ after) :
    Executes options (marked code opcode) ⟨stack, marks, memo, heap⟩
      after := by
  rw [List.append_nil] at run
  exact (Executes.bare .mark rfl effect_mark).append
    (run.append (.bare opcode noArgument effect))

/-- Items are added to a list in any number of batches. -/
theorem append_toArray_append
    (present : Array Value) (first rest : List Value) :
    present ++ first.toArray ++ rest.toArray =
      present ++ (first ++ rest).toArray := by
  rw [Array.append_assoc, List.append_toArray first rest]

end Execution

/-! ## Instances -/

namespace Heap

theorem instantiate_eq {heap : Heap} {address : Address}
    {reference : TypeRef} {kind : RecordKind}
    (here : heap.get address = .typeRef reference)
    (isKind : reference.strategy.recordKind? = some kind) (call : Call) :
    heap.instantiate (.object address) call =
      .ok (reference.newRecord kind call heap) := by
  have isType : heap.typeRef? (.object address) = some reference :=
    typeRef?_eq_some_iff.mpr ⟨address, rfl, here⟩
  unfold instantiate
  rw [isType]
  dsimp only
  rw [TypeRef.instantiate_of_kind isKind]
  rfl

end Heap

namespace Execution

variable {options : Options} {stack : List Value}
variable {marks : List (List Value)} {memo : List (Nat × Value)} {heap : Heap}

theorem effect_global {module name : Text} {strategy : Strategy}
    (resolved : options.registry.resolve ⟨module, name⟩ = .ok strategy) :
    Effect options (.global module name) ⟨stack, marks, memo, heap⟩
      ⟨.object heap.objects.size :: stack, marks, memo,
        (heap.alloc (.typeRef ⟨module, name, strategy⟩)).2⟩ := by
  intro nested machine
  have pushed : pushType options.registry module name
      (machine.holding ⟨stack, marks, memo, heap⟩) =
        .ok () (machine.holding
          ⟨.object heap.objects.size :: stack, marks, memo,
            (heap.alloc (.typeRef ⟨module, name, strategy⟩)).2⟩) := by
    unfold pushType
    rw [resolved]
    rfl
  exact ⟨_, bind_of_eq_ok pushed, rfl, rfl⟩

variable {type value : Value} {args : List Value} {after : Heap}

theorem instantiate_eq (contents : Contents) (machine : Machine)
    (made : contents.heap.instantiate type (Call.ofArgs args) =
      .ok (value, after)) :
    instantiate type (Call.ofArgs args) (machine.holding contents) =
      .ok value (machine.holding { contents with heap := after }) :=
  decoding_eq_ok_iff.mpr
    ⟨_, Decoding.build_eq_ok_iff.mpr ⟨after, made, rfl⟩, rfl⟩

theorem effect_newObj
    (made : heap.instantiate type (Call.ofArgs args) = .ok (value, after)) :
    Effect options .newObj ⟨.tuple args :: type :: stack, marks, memo, heap⟩
      ⟨value :: stack, marks, memo, after⟩ := by
  intro nested machine
  have pushed : (instantiate type (Call.ofArgs args) >>= push)
      (machine.holding ⟨stack, marks, memo, heap⟩) =
        .ok () (machine.holding ⟨value :: stack, marks, memo, after⟩) :=
    bind_of_eq_ok
      (instantiate_eq ⟨stack, marks, memo, heap⟩ machine made)
  exact ⟨_, bind_of_eq_ok pushed, rfl, rfl⟩

theorem effect_reduce
    (made : heap.instantiate type (Call.ofArgs args) = .ok (value, after)) :
    Effect options .reduce ⟨.tuple args :: type :: stack, marks, memo, heap⟩
      ⟨value :: stack, marks, memo, after⟩ := by
  intro nested machine
  have replaced : (instantiate type (Call.ofArgs args) >>= replaceTop)
      (machine.holding ⟨type :: stack, marks, memo, heap⟩) =
        .ok () (machine.holding ⟨value :: stack, marks, memo, after⟩) :=
    bind_of_eq_ok
      (instantiate_eq ⟨type :: stack, marks, memo, heap⟩ machine made)
  exact ⟨_, bind_of_eq_ok replaced, rfl, rfl⟩

/-- A record that is no placeholder keeps its place when it gets a state. -/
theorem effect_build {address : Address} {record filled : Record}
    {state : Value}
    (here : heap.get address = .record record)
    (applied : record.applyState heap state = .ok filled)
    (noArray : ∀ target layout, filled.strategy ≠ .array target layout) :
    Effect options .build
      ⟨state :: .object address :: stack, marks, memo, heap⟩
      ⟨.object address :: stack, marks, memo,
        heap.set address (.record filled)⟩ := by
  intro nested machine
  have given : applyToTop
      (machine.holding
        ⟨state :: .object address :: stack, marks, memo, heap⟩) = _ :=
    applyToTop_of_eq rfl here applied
  have left : ∀ middle,
      fillPlaceholder options nested address filled middle =
        .ok () middle := by
    intro middle
    unfold fillPlaceholder
    cases strategy : filled.strategy with
    | array target layout => exact absurd strategy (noArray target layout)
    | _ => rfl
  have built : giveState options nested
      (machine.holding
        ⟨state :: .object address :: stack, marks, memo, heap⟩) = _ :=
    (congrFun (giveState_eq options nested) _).trans
      ((bind_of_eq_ok given).trans (left _))
  exact ⟨_, bind_of_eq_ok built, rfl, rfl⟩

end Execution

end PickleGraph
