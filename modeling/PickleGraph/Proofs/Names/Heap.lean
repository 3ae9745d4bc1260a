import PickleGraph.Proofs.Heap.Object
import PickleGraph.Registry
import PickleGraph.Value.Access

/-!
# Heaps under other names

The references to types and the records of a heap may take other names. Nothing
else of the heap changes, and no question about its values is answered
differently.
-/

namespace PickleGraph

open Actions

/-! ## Names of objects -/

/-- The names that objects take in place of their own. -/
abbrev Naming := Address → Option TypeKey

def TypeRef.named (reference : TypeRef) : Option TypeKey → TypeRef
  | none => reference
  | some key => { reference with module := key.module, name := key.name }

def Record.named (record : Record) : Option TypeKey → Record
  | none => record
  | some key => { record with module := key.module, name := key.name }

/-- The object under another name, if it is one of those that have a name. -/
def Object.named (object : Object) (key? : Option TypeKey) : Object :=
  match object with
  | record content => record (content.named key?)
  | typeRef reference => typeRef (reference.named key?)
  | object => object

/-- The heap whose objects take these names. -/
def Heap.renamed (heap : Heap) (naming : Naming) : Heap :=
  { heap with
    objects := heap.objects.mapIdx fun address object =>
      object.named (naming address) }

section Parts

variable (key? : Option TypeKey)

@[simp] theorem TypeRef.strategy_named (reference : TypeRef) :
    (reference.named key?).strategy = reference.strategy := by
  cases key? <;> rfl

@[simp] theorem Record.kind_named (record : Record) :
    (record.named key?).kind = record.kind := by
  cases key? <;> rfl

@[simp] theorem Record.strategy_named (record : Record) :
    (record.named key?).strategy = record.strategy := by
  cases key? <;> rfl

@[simp] theorem Record.target_named (record : Record) :
    (record.named key?).target = record.target := by
  cases key? <;> rfl

@[simp] theorem Record.fields_named (record : Record) :
    (record.named key?).fields = record.fields := by
  cases key? <;> rfl

@[simp] theorem Record.field?_named (record : Record) (name : String) :
    (record.named key?).field? name = record.field? name := by
  simp [Record.field?]

@[simp] theorem Record.field_named (record : Record) (name : String) :
    (record.named key?).field name = record.field name := by
  simp [Record.field]

@[simp] theorem Record.numbered_named (record : Record) :
    (record.named key?).numbered = record.numbered := by
  simp [Record.numbered]

@[simp] theorem Object.typeName_named (object : Object) :
    (object.named key?).typeName = object.typeName := by
  cases object with
  | record content => simp [Object.named, Object.typeName]
  | dict ordered entries => cases ordered <;> rfl
  | _ => rfl

@[simp] theorem Object.named_none (object : Object) :
    object.named none = object := by
  cases object <;> rfl

end Parts

namespace Heap

variable (naming : Naming)

/-! ## Parts of renamed heaps -/

@[simp] theorem size_renamed (heap : Heap) :
    (heap.renamed naming).objects.size = heap.objects.size := by
  simp [renamed]

@[simp] theorem get_renamed (heap : Heap) (address : Address) :
    (heap.renamed naming).get address =
      (heap.get address).named (naming address) := by
  simp only [get, get?, renamed, Array.getElem?_mapIdx]
  cases heap.objects[address]? <;> rfl

theorem renamed_alloc (heap : Heap) (object : Object) :
    (heap.alloc object).2.renamed naming =
      ((heap.renamed naming).alloc
        (object.named (naming heap.objects.size))).2 := by
  simp [alloc, renamed, Array.mapIdx_push]

theorem renamed_set (heap : Heap) (address : Address) (object : Object) :
    (heap.set address object).renamed naming =
      (heap.renamed naming).set address (object.named (naming address)) := by
  refine ext_objects rfl fun other => ?_
  simp only [set, renamed, Array.getElem?_mapIdx,
    Array.getElem?_setIfInBounds, Array.size_mapIdx]
  by_cases here : address = other
  · subst here
    by_cases bound : address < heap.objects.size
    · simp [bound]
    · simp [bound]
  · simp [here]

/-- Addresses behind the heap take no part. -/
theorem renamed_congr {heap : Heap} {first second : Naming}
    (same : ∀ address < heap.objects.size, first address = second address) :
    heap.renamed first = heap.renamed second := by
  refine ext_objects rfl fun address => ?_
  simp only [renamed, Array.getElem?_mapIdx]
  by_cases bound : address < heap.objects.size
  · rw [same address bound]
  · simp [bound]

/-- A result and the heap under other names. -/
def carry {α : Type} (made : α × Heap) : α × Heap :=
  (made.1, made.2.renamed naming)

theorem carry_float (heap : Heap) (number : Binary64) :
    (heap.renamed naming).float number = carry naming (heap.float number) := by
  unfold Heap.float carry
  split <;> rfl

theorem carry_complex (heap : Heap) (real imaginary : Binary64) :
    (heap.renamed naming).complex real imaginary =
      carry naming (heap.complex real imaginary) := by
  unfold Heap.complex carry
  split <;> rfl

/-- What a new object is called is its own matter unless it has a name. -/
theorem carry_alloc (heap : Heap) {object : Object}
    (unnamed : ∀ key?, object.named key? = object) :
    (heap.renamed naming).alloc object =
      carry naming (heap.alloc object) := by
  have grown := renamed_alloc naming heap object
  rw [unnamed] at grown
  unfold carry
  rw [grown]
  simp [alloc]

theorem carry_foldl {α β : Type} {step : β × Heap → α → β × Heap}
    (carries : ∀ state item,
      step (carry naming state) item = carry naming (step state item))
    (items : List α) (state : β × Heap) :
    items.foldl step (carry naming state) =
      carry naming (items.foldl step state) := by
  induction items generalizing state with
  | nil => rfl
  | cons item rest inductionHypothesis =>
      rw [List.foldl_cons, List.foldl_cons, carries]
      exact inductionHypothesis _

/-! ## Kinds of values -/

@[simp] theorem entries?_renamed (heap : Heap) (value : Value) :
    (heap.renamed naming).entries? value = heap.entries? value := by
  cases value with
  | object address =>
      simp only [entries?, get_renamed]
      cases heap.get address <;> rfl
  | _ => rfl

@[simp] theorem array?_renamed (heap : Heap) (value : Value) :
    (heap.renamed naming).array? value = heap.array? value := by
  cases value with
  | object address =>
      simp only [array?, get_renamed]
      cases heap.get address <;> rfl
  | _ => rfl

@[simp] theorem record?_renamed (heap : Heap) (value : Value) :
    (heap.renamed naming).record? value =
      (heap.record? value).map fun (address, record) =>
        (address, record.named (naming address)) := by
  cases value with
  | object address =>
      simp only [record?, get_renamed]
      cases heap.get address <;> rfl
  | _ => rfl

theorem typeRef?_renamed (heap : Heap) (address : Address) :
    (heap.renamed naming).typeRef? (.object address) =
      (heap.typeRef? (.object address)).map
        (·.named (naming address)) := by
  simp only [typeRef?, get_renamed]
  cases heap.get address <;> rfl

@[simp] theorem typeName_renamed (heap : Heap) (value : Value) :
    (heap.renamed naming).typeName value = heap.typeName value := by
  cases value with
  | object address => simp [typeName]
  | _ => rfl

/-! ## Hashes and truth -/

@[simp] theorem viewRefusal_renamed (heap : Heap) (view : MemoryView) :
    (heap.renamed naming).viewRefusal view = heap.viewRefusal view := by
  simp only [viewRefusal, get_renamed]
  cases heap.get view.source <;> rfl

mutual

theorem checkHashable_renamed (heap : Heap) (value : Value) :
    (heap.renamed naming).checkHashable value = heap.checkHashable value := by
  cases value with
  | tuple items => exact checkItems_renamed heap items
  | object address =>
      simp only [checkHashable, get_renamed, viewRefusal_renamed]
      cases heap.get address <;> simp [Object.named]
  | scalar type data =>
      cases type with
      | element kind size bigEndian unit => cases kind <;> rfl
      | _ => rfl
  | _ => rfl

theorem checkItems_renamed (heap : Heap) (items : List Value) :
    checkHashable.checkItems (heap.renamed naming) items =
      checkHashable.checkItems heap items := by
  cases items with
  | nil => rfl
  | cons item rest =>
      rw [checkHashable.checkItems, checkHashable.checkItems,
        checkHashable_renamed heap item, checkItems_renamed heap rest]

end

@[simp] theorem hashable_renamed (heap : Heap) :
    (heap.renamed naming).checkHashable = heap.checkHashable :=
  funext (checkHashable_renamed naming heap)

@[simp] theorem isTruePlain_renamed (heap : Heap) (value : Value) :
    (heap.renamed naming).isTruePlain value = heap.isTruePlain value := by
  cases value with
  | object address =>
      simp only [isTruePlain, get_renamed]
      cases heap.get address <;> rfl
  | _ => rfl

@[simp] theorem isTrue_renamed (heap : Heap) (value : Value) :
    (heap.renamed naming).isTrue value = heap.isTrue value := by
  cases value with
  | object address =>
      simp only [isTrue, get_renamed, isTruePlain_renamed]
      cases heap.get address <;> rfl
  | _ => rfl

/-! ## Items of values -/

theorem carry_iterateArray (array : NdArray) (heap : Heap) :
    array.iterate (heap.renamed naming) =
      (array.iterate heap).map (carry naming) := by
  unfold NdArray.iterate
  split
  · rfl
  · split <;> rfl
  · next count shape _ _ =>
      refine congrArg Except.ok (carry_foldl naming ?_ _ ([], heap))
      intro state content
      have made : (state.2.renamed naming).alloc
          (.array { array with shape, content }) = _ :=
        carry_alloc naming state.2 fun _ => rfl
      simp only [carry] at made ⊢
      rw [made]

theorem carry_floats (numbers : List Binary64) (heap : Heap) :
    (heap.renamed naming).floats numbers =
      carry naming (heap.floats numbers) := by
  refine carry_foldl naming ?_ numbers ([], heap)
  intro state number
  have made := carry_float naming state.2 number
  simp only [carry] at made ⊢
  rw [made]

theorem carry_iterateView (heap : Heap) (view : MemoryView) :
    (heap.renamed naming).iterateView view =
      (heap.iterateView view).map (carry naming) := by
  unfold iterateView
  split
  · rfl
  · rw [get_renamed]
    cases heap.get view.source with
    | array array =>
        simp only [Object.named]
        split
        · rfl
        · rfl
        · rfl
        · split
          · rw [carry_floats]
            rfl
          · rfl
        · rfl
    | _ => rfl
  · rfl

theorem carry_iterate (heap : Heap) (value : Value) :
    (heap.renamed naming).iterate value =
      (heap.iterate value).map (carry naming) := by
  unfold iterate
  split
  · rfl
  · rfl
  · rfl
  · rfl
  · next address _ =>
      simp only [iterateObject, get_renamed]
      cases heap.get address with
      | view view => exact carry_iterateView naming heap view
      | array array => exact carry_iterateArray naming array heap
      | _ => rfl
  · rfl

theorem carries_iterate (heap : Heap) (value : Value) :
    Carries (carry naming) (heap.iterate value)
      ((heap.renamed naming).iterate value) :=
  .of_map (carry_iterate naming heap value)

theorem carry_iterateChecked (heap : Heap)
    (check : Value → Except Refusal Unit) (value : Value) :
    (heap.renamed naming).iterateChecked check value =
      (heap.iterateChecked check value).map (carry naming) := by
  unfold iterateChecked
  rw [record?_renamed, carry_iterate]
  cases heap.record? value with
  | some found =>
      obtain ⟨address, record⟩ := found
      simp only [Option.map_some, Record.numbered_named]
      cases record.numbered.forM check <;> rfl
  | none =>
      cases heap.iterate value with
      | error refusal => rfl
      | ok made =>
          obtain ⟨items, after⟩ := made
          show (items.forM check >>= fun _ => .ok (items, after.renamed naming)) =
            (items.forM check >>= fun _ => .ok (items, after)).map (carry naming)
          cases items.forM check <;> rfl

theorem carry_sequence (heap : Heap) (value : Value) :
    (heap.renamed naming).sequence value =
      (heap.sequence value).map (carry naming) := by
  unfold sequence
  split
  · next address _ =>
      rw [get_renamed]
      cases heap.get address with
      | list items => exact carry_iterate naming heap value
      | bytearray content => exact carry_iterate naming heap value
      | array array => exact carry_iterate naming heap value
      | _ => rfl
  · rfl
  · exact carry_iterate naming heap value

@[simp] theorem item_renamed (heap : Heap) (value key : Value) :
    (heap.renamed naming).item value key = heap.item value key := by
  have positioned : (do
        let found ← (heap.renamed naming).sequence value
        atPosition found.1 key) = (do
        let found ← heap.sequence value
        atPosition found.1 key : Except Refusal Value) := by
    rw [carry_sequence]
    cases heap.sequence value <;> rfl
  have looked : ∀ entries : List (Value × Value),
      Entries.lookup (heap.renamed naming) key entries =
        Entries.lookup heap key entries := by
    intro entries
    unfold Entries.lookup
    rw [hashable_renamed]
  unfold item
  cases value with
  | object address =>
      simp only [get_renamed]
      cases heap.get address with
      | dict ordered entries => exact looked entries
      | record record =>
          simp only [Object.named, Record.fields_named]
          exact looked record.fields
      | _ => exact positioned
  | _ => exact positioned

@[simp] theorem firstTwo_renamed (heap : Heap) (value : Value) :
    (heap.renamed naming).firstTwo value = heap.firstTwo value := by
  unfold firstTwo
  rw [carry_sequence]
  cases heap.sequence value <;> rfl

end Heap

end PickleGraph
