import PickleGraph.Proofs.Graph.Basic
import PickleGraph.Proofs.Heap.Object

/-!
# Ledgers of nodes

While a graph is decoded, every node that has been met stands in a slot of the
memo and at an address of the heap. The ledger of these places only grows. A
node that was added to it is complete once its own code has been executed,
although its contents may refer to nodes that are still being filled.
-/

namespace PickleGraph

open Execution Decoding

/-! ## The memo -/

namespace Memo

theorem insert_of_notMem {slot : Nat} {value : Value}
    {memo : List (Nat × Value)} (fresh : slot ∉ memo.map (·.1)) :
    insert slot value memo = memo ++ [(slot, value)] := by
  induction memo with
  | nil => rfl
  | cons entry rest inductionHypothesis =>
      rw [List.map_cons, List.mem_cons, not_or] at fresh
      rw [insert, if_neg fun same => fresh.1 same.symm,
        inductionHypothesis fresh.2]
      rfl

theorem lookup_of_mem {slot : Nat} {value : Value}
    {memo : List (Nat × Value)} (distinct : (memo.map (·.1)).Nodup)
    (member : (slot, value) ∈ memo) : memo.lookup slot = some value := by
  induction memo with
  | nil => cases member
  | cons entry rest inductionHypothesis =>
      obtain ⟨bound, old⟩ := entry
      rw [List.map_cons, List.nodup_cons] at distinct
      rcases List.mem_cons.mp member with same | later
      · cases same
        rw [List.lookup_cons, beq_self_eq_true]
      · have different : slot ≠ bound := by
          intro same
          subst same
          exact distinct.1 (List.mem_map.mpr ⟨_, later, rfl⟩)
        rw [List.lookup_cons, beq_false_of_ne different]
        exact inductionHypothesis distinct.2 later

end Memo

namespace Graph

section Slots

variable {options : Options} {stack : List Value}
variable {marks : List (List Value)} {memo : List (Nat × Value)} {heap : Heap}

/-- Code that binds a slot adds it to the memo. -/
theorem Binds.executes {slot : Nat} {code : Bytes} {top : Value}
    (binds : Binds memo.length slot code) (fresh : slot ∉ memo.map (·.1)) :
    Executes options code ⟨top :: stack, marks, memo, heap⟩
      ⟨top :: stack, marks, memo ++ [(slot, top)], heap⟩ := by
  have put : Effect options (.put slot) ⟨top :: stack, marks, memo, heap⟩
      ⟨top :: stack, marks, Memo.insert slot top memo, heap⟩ :=
    effect_put (Int.natCast_nonneg slot)
  rw [← Memo.insert_of_notMem fresh]
  cases binds with
  | line numeral =>
      refine .of_effect ?_ put
      refine .bind_nil (Instruction.takes_line ?_)
        (.map Instruction.put (Instruction.takes_numeral "PUT" numeral))
      exact Integer.notMem_numeral numeral (by decide) (.inl (by decide))
  | @number opcode width slot isPut bound =>
      refine .of_effect ?_ put
      cases opcode <;> cases isPut <;>
        exact .map (fun number : Nat => Instruction.put number)
          (Instruction.takes_natural (by decide) bound)
  | count => exact .bare .memoize rfl effect_memoize

/-- Code that fetches a slot puts what it holds on the stack. -/
theorem Fetches.executes {slot : Nat} {code : Bytes} {value : Value}
    (fetches : Fetches slot code) (bound : memo.lookup slot = some value) :
    Executes options code ⟨stack, marks, memo, heap⟩
      ⟨value :: stack, marks, memo, heap⟩ := by
  have get : Effect options (.get slot) ⟨stack, marks, memo, heap⟩
      ⟨value :: stack, marks, memo, heap⟩ :=
    effect_get (Int.natCast_nonneg slot) bound
  cases fetches with
  | line numeral =>
      refine .of_effect ?_ get
      refine .bind_nil (Instruction.takes_line ?_)
        (.map Instruction.get (Instruction.takes_numeral "GET" numeral))
      exact Integer.notMem_numeral numeral (by decide) (.inl (by decide))
  | @number opcode width slot isGet narrow =>
      refine .of_effect ?_ get
      cases opcode <;> cases isGet <;>
        exact .map (fun number : Nat => Instruction.get number)
          (Instruction.takes_natural (by decide) narrow)

end Slots

/-! ## Ledgers -/

/-- A node with the slot and the address it has got. -/
structure Place (ι : Type) where
  name : ι
  slot : Nat
  address : Address

abbrev Ledger (ι : Type) := List (Place ι)

variable {ι : Type}

namespace Ledger

def bindings (ledger : Ledger ι) : Bindings ι :=
  ledger.map fun place => (place.name, place.slot)

def memo (ledger : Ledger ι) : List (Nat × Value) :=
  ledger.map fun place => (place.slot, .object place.address)

/-- The node stands at the address. -/
def Has (ledger : Ledger ι) (name : ι) (address : Address) : Prop :=
  ∃ place ∈ ledger, place.name = name ∧ place.address = address

/-- Nodes, slots and addresses are all different, and addresses increase. -/
structure Sound (ledger : Ledger ι) (heap : Heap) : Prop where
  names : (ledger.map (·.name)).Nodup
  slots : (ledger.map (·.slot)).Nodup
  addresses : (ledger.map (·.address)).Pairwise (· < ·)
  bound : ∀ place ∈ ledger, place.address < heap.objects.size

variable {ledger added : Ledger ι}

theorem memo_append (ledger added : Ledger ι) :
    memo (ledger ++ added) = ledger.memo ++ added.memo :=
  List.map_append

theorem bindings_append (ledger added : Ledger ι) :
    bindings (ledger ++ added) = ledger.bindings ++ added.bindings :=
  List.map_append

theorem Has.append {name : ι} {address : Address}
    (has : ledger.Has name address) (added : Ledger ι) :
    Has (ledger ++ added) name address := by
  obtain ⟨place, member, same⟩ := has
  exact ⟨place, List.mem_append_left added member, same⟩

theorem Sound.mono {heap after : Heap} (sound : ledger.Sound heap)
    (grown : heap.objects.size ≤ after.objects.size) :
    ledger.Sound after :=
  { sound with
    bound := fun place member =>
      Nat.lt_of_lt_of_le (sound.bound place member) grown }

theorem slots_eq (ledger : Ledger ι) :
    ledger.memo.map (·.1) = ledger.map (·.slot) := by
  rw [memo, List.map_map]
  rfl

theorem lookup_memo {heap : Heap} (sound : ledger.Sound heap)
    {place : Place ι} (member : place ∈ ledger) :
    ledger.memo.lookup place.slot = some (.object place.address) := by
  refine Memo.lookup_of_mem ?_ ?_
  · rw [slots_eq]
    exact sound.slots
  · exact List.mem_map.mpr ⟨place, member, rfl⟩

/-- A node that has not been met can be added with a new object. -/
theorem Sound.concat {heap : Heap} (sound : ledger.Sound heap)
    {name : ι} {slot : Nat} (free : ledger.bindings.Free name slot)
    (object : Object) :
    Sound (ledger ++ [⟨name, slot, heap.objects.size⟩])
      (heap.alloc object).2 := by
  have names : ledger.bindings.map (·.1) = ledger.map (·.name) := by
    rw [bindings, List.map_map]
    rfl
  have slots : ledger.bindings.map (·.2) = ledger.map (·.slot) := by
    rw [bindings, List.map_map]
    rfl
  have newName := free.name
  have newSlot := free.slot
  rw [names] at newName
  rw [slots] at newSlot
  have nodup : ∀ {α : Type} {items : List α} {item : α}, items.Nodup →
      item ∉ items → (items ++ [item]).Nodup := by
    intro α items item distinct fresh
    refine List.nodup_append.mpr ⟨distinct, List.pairwise_singleton _ item, ?_⟩
    rintro other member _ last rfl
    exact fresh (List.mem_singleton.mp last ▸ member)
  constructor
  · rw [List.map_append]
    exact nodup sound.names newName
  · rw [List.map_append]
    exact nodup sound.slots newSlot
  · rw [List.map_append, List.pairwise_append]
    refine ⟨sound.addresses, List.pairwise_singleton _ _, ?_⟩
    intro address member other last
    obtain ⟨place, placeMember, rfl⟩ := List.mem_map.mp member
    rw [List.mem_singleton.mp last]
    exact sound.bound place placeMember
  · intro place member
    rw [Heap.size_alloc]
    rcases List.mem_append.mp member with early | last
    · exact Nat.lt_succ_of_lt (sound.bound place early)
    · rw [List.mem_singleton.mp last]
      exact Nat.lt_succ_self _

end Ledger

/-! ## Progress of a traversal -/

/-- What has been decoded since: the ledger and the heap have grown, at most
the listed objects have changed, and all nodes that were added are complete. -/
structure Progress (graph : Graph ι) (changed : List Address)
    (ledger : Ledger ι) (heap : Heap) (added : Ledger ι) (after : Heap) :
    Prop where
  extends_ : heap.Extends changed after
  marks : heap.marks ≤ after.marks
  sound : Ledger.Sound (ledger ++ added) after
  new : ∀ place ∈ added, heap.objects.size ≤ place.address
  complete : ∀ place ∈ added,
    (graph.node place.name).ShownAt (Ledger.Has (ledger ++ added)) after
      place.address

namespace Progress

variable {graph : Graph ι} {changed : List Address} {ledger added : Ledger ι}
variable {heap middle after : Heap}

theorem refl (sound : ledger.Sound heap) :
    Progress graph changed ledger heap [] heap where
  extends_ := .refl changed heap
  marks := Nat.le_refl _
  sound := by rwa [List.append_nil]
  new := by simp
  complete := by simp

/-- What changes later must be old and allowed to change. -/
theorem trans {further : List Address} {more : Ledger ι}
    (first : Progress graph changed ledger heap added middle)
    (second : Progress graph further (ledger ++ added) middle more after)
    (old : ∀ address ∈ further,
      address ∈ changed ∧ address < heap.objects.size) :
    Progress graph changed ledger heap (added ++ more) after where
  extends_ := first.extends_.trans second.extends_ fun address member =>
    .inl (old address member).1
  marks := Nat.le_trans first.marks second.marks
  sound := by
    rw [← List.append_assoc]
    exact second.sound
  new := by
    intro place member
    rcases List.mem_append.mp member with early | late
    · exact first.new place early
    · exact Nat.le_trans first.extends_.size (second.new place late)
  complete := by
    intro place member
    rw [← List.append_assoc]
    rcases List.mem_append.mp member with early | late
    · have here : place.address < middle.objects.size :=
        first.sound.bound place (List.mem_append_right ledger early)
      refine (first.complete place early).mono
        (second.extends_.same place.address here fun isChanged => ?_)
        fun _ _ has => has.append more
      exact absurd (first.new place early)
        (Nat.not_le.mpr (old place.address isChanged).2)
    · exact second.complete place late

/-- An object under construction is changed. -/
theorem set {address : Address} (object : Object)
    (sound : ledger.Sound heap) :
    Progress graph [address] ledger heap [] (heap.set address object) where
  extends_ := .set heap address object
  marks := Nat.le_refl _
  sound := by
    rw [List.append_nil]
    exact sound.mono (Nat.le_of_eq (Heap.size_set heap address object).symm)
  new := by simp
  complete := by simp

/-- Objects are added, and then one object under construction is changed, for as
long as it takes. -/
theorem set_trans {address : Address} {object : Object} {more : Ledger ι}
    (first : Progress graph [] ledger heap added middle)
    (old : address < heap.objects.size)
    (second : Progress graph [address] (ledger ++ added)
      (middle.set address object) more after) :
    Progress graph [address] ledger heap (added ++ more) after := by
  have start : Progress graph [address] ledger heap added middle :=
    { first with extends_ := first.extends_.mono (by simp) }
  have isOld : ∀ other ∈ [address],
      other ∈ [address] ∧ other < heap.objects.size :=
    fun other member => ⟨member, List.mem_singleton.mp member ▸ old⟩
  have filled := start.trans (.set object first.sound) isOld
  rw [List.append_nil] at filled
  exact filled.trans second isOld

/-- A node that is met first: a new object is filled until the node is
complete. -/
theorem visit {name : ι} {slot : Nat} {object : Object}
    (inner : Progress graph [heap.objects.size]
      (ledger ++ [⟨name, slot, heap.objects.size⟩]) (heap.alloc object).2
      added after)
    (complete : (graph.node name).ShownAt
      (Ledger.Has (ledger ++ ⟨name, slot, heap.objects.size⟩ :: added)) after
      heap.objects.size) :
    Progress graph [] ledger heap
      (⟨name, slot, heap.objects.size⟩ :: added) after where
  extends_ := by
    refine (Heap.Extends.alloc heap object).trans inner.extends_ ?_
    intro address member
    rw [List.mem_singleton.mp member]
    exact .inr (Nat.le_refl _)
  marks := inner.marks
  sound := by
    rw [List.append_cons]
    exact inner.sound
  new := by
    intro place member
    rcases List.mem_cons.mp member with rfl | later
    · exact Nat.le_refl _
    · have above := inner.new place later
      rw [Heap.size_alloc] at above
      exact Nat.le_of_succ_le above
  complete := by
    intro place member
    rcases List.mem_cons.mp member with rfl | later
    · exact complete
    · rw [List.append_cons]
      exact inner.complete place later

end Progress

end Graph

end PickleGraph
