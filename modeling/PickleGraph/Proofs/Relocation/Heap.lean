import PickleGraph.Construction.State
import PickleGraph.Proofs.Heap.Object
import PickleGraph.Proofs.Relocation.Value

/-!
# Heaps over another heap

The objects of a heap can be put behind those of another one, so that their
addresses grow by the size of it. Whatever is made or asked of the values of the
heap is then made or asked in the same way, and the heap below takes no part.
-/

namespace PickleGraph

open Actions

/-! ## Objects -/

section Objects

variable (shift : Shift)

def Record.shifted (record : Record) : Record :=
  { record with
    args := record.args.map (Value.shifted shift)
    fields := record.fields.map (shiftedEntry shift) }

def ArrayContent.shifted : ArrayContent → ArrayContent
  | raw data => raw data
  | items values => items (values.map (Value.shifted shift))

def NdArray.shifted (array : NdArray) : NdArray :=
  { array with content := array.content.shifted shift }

def MemoryView.shifted (view : MemoryView) : MemoryView :=
  { view with source := view.source + shift.objects }

/-- The same object with higher addresses and marks in its values. -/
def Object.shifted : Object → Object
  | list items => list (items.map (Value.shifted shift))
  | dict ordered entries => dict ordered (entries.map (shiftedEntry shift))
  | set members => set (members.map (Value.shifted shift))
  | bytearray content => bytearray content
  | view content => view (content.shifted shift)
  | record content => record (content.shifted shift)
  | typeRef reference => typeRef reference
  | array content => array (content.shifted shift)
  | plain => plain

@[simp] theorem Record.field?_shifted (record : Record) (name : String) :
    (record.shifted shift).field? name =
      (record.field? name).map (Value.shifted shift) :=
  Entries.findText?_shifted shift record.fields name

@[simp] theorem Record.field_shifted (record : Record) (name : String) :
    (record.shifted shift).field name =
      (record.field name).shifted shift := by
  unfold Record.field
  rw [field?_shifted]
  cases record.field? name <;> rfl

@[simp] theorem Record.numbered_shifted (record : Record) :
    (record.shifted shift).numbered =
      record.numbered.map (Value.shifted shift) := by
  have found : ∀ number : Nat,
      Entries.find? (.int number) (record.shifted shift).fields =
        (Entries.find? (.int number) record.fields).map
          (Value.shifted shift) :=
    fun number => Entries.find?_shifted shift (.int number) record.fields
  have same : (record.shifted shift).fields.length =
      record.fields.length := List.length_map _
  unfold Record.numbered
  simp only [found, same]
  generalize List.range record.fields.length = numbers
  induction numbers with
  | nil => rfl
  | cons number rest inductionHypothesis =>
      simp only [List.map_cons]
      cases Entries.find? (.int number) record.fields with
      | none => rfl
      | some value =>
          simp only [Option.map_some, Option.isSome_some,
            List.takeWhile_cons_of_pos, List.filterMap_cons, id,
            List.map_cons]
          exact congrArg _ inductionHypothesis

@[simp] theorem Object.typeName_shifted (object : Object) :
    (object.shifted shift).typeName = object.typeName := by
  cases object with
  | dict ordered entries => cases ordered <;> rfl
  | _ => rfl

@[simp] theorem NdArray.size_shifted (array : NdArray) :
    (array.shifted shift).size = array.size :=
  rfl

end Objects

namespace Heap

/-- What lies below the objects of a heap over this one. -/
def shift (heap : Heap) : Shift :=
  ⟨heap.objects.size, heap.marks⟩

/-- The objects of the heap behind those of the heap below. -/
def atop (heap below : Heap) : Heap :=
  ⟨below.objects ++ heap.objects.map (Object.shifted below.shift),
    heap.marks + below.marks⟩

/-- A changed result, and its heap over the heap below. -/
def carryOver {α β : Type} (below : Heap) (change : α → β)
    (made : α × Heap) : β × Heap :=
  (change made.1, made.2.atop below)

variable (below : Heap)

/-- A value and its heap, over the heap below. -/
abbrev carryValue (made : Value × Heap) : Value × Heap :=
  carryOver below (Value.shifted below.shift) made

/-! ## Parts of heaps over another heap -/

@[simp] theorem empty_atop : empty.atop below = below := by
  simp [atop, empty]

@[simp] theorem size_atop (heap : Heap) :
    (heap.atop below).objects.size =
      below.objects.size + heap.objects.size := by
  simp [atop]

theorem get?_atop (heap : Heap) (address : Address) :
    (heap.atop below).get? (address + below.shift.objects) =
      (heap.get? address).map (Object.shifted below.shift) := by
  have behind : below.objects.size ≤ address + below.shift.objects :=
    Nat.le_add_left _ _
  have same : address + below.shift.objects - below.objects.size = address :=
    Nat.add_sub_cancel _ _
  rw [get?, get?, atop, Array.getElem?_append_right behind, same,
    Array.getElem?_map]

@[simp] theorem get_atop (heap : Heap) (address : Address) :
    (heap.atop below).get (address + below.shift.objects) =
      (heap.get address).shifted below.shift := by
  rw [get, get, get?_atop]
  cases heap.get? address <;> rfl

/-- The objects of the heap below stay where they are. -/
theorem get?_atop_of_lt (heap : Heap) {address : Address}
    (bound : address < below.objects.size) :
    (heap.atop below).get? address = below.get? address :=
  Array.getElem?_append_left bound

theorem carryOver_alloc (heap : Heap) (object : Object) :
    (heap.atop below).alloc (object.shifted below.shift) =
      carryValue below (heap.alloc object) := by
  have address : (heap.atop below).objects.size =
      heap.objects.size + below.shift.objects := by
    rw [size_atop]
    exact Nat.add_comm _ _
  simp only [alloc, carryOver, Value.shifted_object, address]
  simp [atop]

theorem set_atop (heap : Heap) (address : Nat) (object : Object) :
    (heap.atop below).set (address + below.shift.objects)
        (object.shifted below.shift) =
      (heap.set address object).atop below := by
  have size : below.shift.objects = below.objects.size := rfl
  refine ext_objects rfl fun other => ?_
  simp only [set, atop, size]
  by_cases low : other < below.objects.size
  · have different : address + below.objects.size ≠ other := by omega
    rw [Array.getElem?_setIfInBounds_ne different,
      Array.getElem?_append_left low, Array.getElem?_append_left low]
  · obtain ⟨place, rfl⟩ := Nat.exists_eq_add_of_le (Nat.le_of_not_lt low)
    rw [Array.getElem?_setIfInBounds, Array.getElem?_append_right (by omega),
      Array.getElem?_append_right (by omega), Array.getElem?_map,
      Array.getElem?_map, Array.getElem?_setIfInBounds]
    by_cases here : address = place
    · subst here
      by_cases bound : address < heap.objects.size
      · simp [bound, Nat.add_comm address]
      · simp [bound, Nat.add_comm address]
    · have elsewhere : address + below.objects.size ≠
          below.objects.size + place := by omega
      simp [here, elsewhere]

theorem carryOver_float (heap : Heap) (number : Binary64) :
    (heap.atop below).float number =
      carryValue below (heap.float number) := by
  unfold Heap.float carryValue carryOver
  by_cases isNaN : number.isNaN = true
  · rw [if_pos isNaN, if_pos isNaN]
    simp [Value.shifted, Shift.mark, atop, shift]
    omega
  · rw [if_neg isNaN, if_neg isNaN]
    rfl

theorem carryOver_complex (heap : Heap) (re im : Binary64) :
    (heap.atop below).complex re im =
      carryValue below (heap.complex re im) := by
  unfold Heap.complex carryValue carryOver
  by_cases isNaN : (re.isNaN || im.isNaN) = true
  · rw [if_pos isNaN, if_pos isNaN]
    simp [Value.shifted, Shift.mark, atop, shift]
    omega
  · rw [if_neg isNaN, if_neg isNaN]
    rfl

/-! ## Kinds of values -/

variable (heap : Heap)

@[simp] theorem entries?_atop (value : Value) :
    (heap.atop below).entries? (value.shifted below.shift) =
      (heap.entries? value).map (List.map (shiftedEntry below.shift)) := by
  cases value with
  | object address =>
      simp only [entries?, Value.shifted_object, get_atop]
      cases heap.get address <;> rfl
  | _ => rfl

@[simp] theorem array?_atop (value : Value) :
    (heap.atop below).array? (value.shifted below.shift) =
      (heap.array? value).map (NdArray.shifted below.shift) := by
  cases value with
  | object address =>
      simp only [array?, Value.shifted_object, get_atop]
      cases heap.get address <;> rfl
  | _ => rfl

@[simp] theorem record?_atop (value : Value) :
    (heap.atop below).record? (value.shifted below.shift) =
      (heap.record? value).map fun (address, record) =>
        (address + below.shift.objects, record.shifted below.shift) := by
  cases value with
  | object address =>
      simp only [record?, Value.shifted_object, get_atop]
      cases heap.get address <;> rfl
  | _ => rfl

@[simp] theorem typeRef?_atop (value : Value) :
    (heap.atop below).typeRef? (value.shifted below.shift) =
      heap.typeRef? value := by
  cases value with
  | object address =>
      simp only [typeRef?, Value.shifted_object, get_atop]
      cases heap.get address <;> rfl
  | _ => rfl

@[simp] theorem typeName_atop (value : Value) :
    (heap.atop below).typeName (value.shifted below.shift) =
      heap.typeName value := by
  cases value with
  | object address => simp [typeName]
  | _ => rfl

/-! ## Hashes and truth -/

@[simp] theorem viewRefusal_atop (view : MemoryView) :
    (heap.atop below).viewRefusal (view.shifted below.shift) =
      heap.viewRefusal view := by
  simp only [viewRefusal, MemoryView.shifted, get_atop]
  cases heap.get view.source <;> rfl

mutual

@[simp] theorem checkHashable_atop (value : Value) :
    (heap.atop below).checkHashable (value.shifted below.shift) =
      heap.checkHashable value := by
  cases value with
  | tuple items =>
      rw [Value.shifted_tuple]
      exact checkItems_atop items
  | object address =>
      simp only [checkHashable, Value.shifted_object, get_atop]
      cases heap.get address with
      | view view => exact congrArg Except.error (viewRefusal_atop below heap view)
      | _ => rfl
  | scalar type data =>
      cases type with
      | element kind size bigEndian unit => cases kind <;> rfl
      | _ => rfl
  | _ => rfl

theorem checkItems_atop (items : List Value) :
    checkHashable.checkItems (heap.atop below)
        (items.map (Value.shifted below.shift)) =
      checkHashable.checkItems heap items := by
  cases items with
  | nil => rfl
  | cons item rest =>
      rw [List.map_cons, checkHashable.checkItems, checkHashable.checkItems,
        checkHashable_atop item, checkItems_atop rest]

end

@[simp] theorem isTruePlain_atop (value : Value) :
    (heap.atop below).isTruePlain (value.shifted below.shift) =
      heap.isTruePlain value := by
  cases value with
  | object address =>
      simp only [isTruePlain, Value.shifted_object, get_atop]
      cases heap.get address <;> simp [Object.shifted, Array.isEmpty]
  | tuple items => simp [isTruePlain]
  | frozenset members => simp [isTruePlain]
  | _ => rfl

@[simp] theorem isTrue_atop (value : Value) :
    (heap.atop below).isTrue (value.shifted below.shift) =
      heap.isTrue value := by
  have plain : (heap.atop below).isTruePlain (value.shifted below.shift) =
      heap.isTruePlain value := isTruePlain_atop below heap value
  cases value with
  | object address =>
      simp only [isTrue, Value.shifted_object, get_atop] at plain ⊢
      cases heap.get address with
      | array array =>
          obtain ⟨type, shape, content, writable⟩ := array
          cases content with
          | raw data => rfl
          | items values =>
              cases values with
              | nil => rfl
              | cons first rest =>
                  cases rest with
                  | nil => exact congrArg Except.ok (isTruePlain_atop below heap first)
                  | cons second others => rfl
      | view view => rfl
      | _ => exact congrArg Except.ok plain
  | _ => exact congrArg Except.ok plain

end Heap

end PickleGraph

/-!
## States over another heap

A record takes the same state over another heap.
-/

namespace PickleGraph.Record

open Actions Heap

section Fields

variable (shift : Shift) (record : Record)

theorem update_shifted (entries : List (Value × Value)) :
    (record.shifted shift).update (entries.map (shiftedEntry shift)) =
      (record.update entries).shifted shift := by
  unfold update shifted
  rw [Entries.merge_shifted]

theorem setField_shifted (name : Text) (value : Value) :
    (record.shifted shift).setField name (value.shifted shift) =
      (record.setField name value).shifted shift := by
  have inserted := Entries.insert_shifted shift (.str name) value record.fields
  rw [Value.shifted_str] at inserted
  unfold setField shifted
  dsimp only
  rw [inserted]

theorem foldl_setField_shifted (pairs : List (Text × Value)) :
    (pairs.map fun (name, value) => (name, value.shifted shift)).foldl
        (fun record (name, value) => record.setField name value)
        (record.shifted shift) =
      (pairs.foldl (fun record (name, value) => record.setField name value)
        record).shifted shift := by
  induction pairs generalizing record with
  | nil => rfl
  | cons pair rest inductionHypothesis =>
      obtain ⟨name, value⟩ := pair
      have given := setField_shifted shift record name value
      rw [List.map_cons, List.foldl_cons, List.foldl_cons]
      dsimp only
      rw [given]
      exact inductionHypothesis (record.setField name value)

theorem zip_shifted (names : List Text) (values : List Value) :
    names.zip (values.map (Value.shifted shift)) =
      (names.zip values).map fun (name, value) =>
        (name, value.shifted shift) :=
  List.zip_map_right

theorem fillPositions_shifted (names : List Text) (values : List Value) :
    (record.shifted shift).fillPositions names
        (values.map (Value.shifted shift)) =
      (record.fillPositions names values).shifted shift := by
  have left : Value.tuple ((values.map (Value.shifted shift)).drop
      names.length) =
        (Value.tuple (values.drop names.length)).shifted shift := by
    rw [Value.shifted_tuple, List.map_drop]
  unfold fillPositions
  dsimp only
  rw [zip_shifted, foldl_setField_shifted, List.length_map, left,
    setField_shifted]
  split <;> rfl

end Fields

variable (below heap : Heap) (record : Record)

theorem mergeMapping_atop (state : Value) :
    (record.shifted below.shift).mergeMapping (heap.atop below)
        (state.shifted below.shift) =
      (record.mergeMapping heap state).map (shifted below.shift) := by
  unfold mergeMapping
  rw [isTrue_atop, entries?_atop, typeName_atop, except_bind_map]
  refine except_bind_congr fun isTrue => ?_
  cases isTrue with
  | false => rfl
  | true =>
      cases heap.entries? state with
      | none => rfl
      | some entries =>
          exact congrArg Except.ok (update_shifted below.shift record entries)

theorem isMappingOrNone_atop (state : Value) :
    mergeState.isMappingOrNone (heap.atop below)
        (state.shifted below.shift) =
      mergeState.isMappingOrNone heap state := by
  have found := entries?_atop below heap state
  cases state with
  | none => rfl
  | object address =>
      rw [Value.shifted_object] at found ⊢
      simp only [mergeState.isMappingOrNone, found, Option.isSome_map]
  | _ => rfl

theorem mergeState_atop (state : Value) :
    (record.shifted below.shift).mergeState (heap.atop below)
        (state.shifted below.shift) =
      (record.mergeState heap state).map (shifted below.shift) := by
  have whole := mergeMapping_atop below heap record state
  cases state with
  | tuple items =>
      rw [Value.shifted_tuple] at whole ⊢
      rcases items with _ | ⟨state, _ | ⟨slots, _ | ⟨third, rest⟩⟩⟩
      · exact whole
      · exact whole
      · have merged := mergeState_atop slots
        have mapped := fun record => mergeMapping_atop below heap record state
        simp only [List.map_cons, List.map_nil] at whole ⊢
        rw [mergeState, mergeState, isMappingOrNone_atop, isTrue_atop]
        split
        · rw [except_bind_map]
          refine except_bind_congr fun isTrue => ?_
          cases isTrue with
          | false => exact mapped record
          | true =>
              show (Record.mergeState _ _ _ >>= _) =
                Except.map _ (record.mergeState heap slots >>= _)
              rw [merged, except_map_bind, except_bind_map]
              exact except_bind_congr mapped
        · exact whole
      · exact whole
  | _ => exact whole
termination_by state

theorem stateItems?_atop (state : Value) :
    stateItems? (heap.atop below) (state.shifted below.shift) =
      (stateItems? heap state).map (List.map (Value.shifted below.shift)) := by
  cases state with
  | tuple items =>
      rw [Value.shifted_tuple]
      rfl
  | object address =>
      simp only [stateItems?, Value.shifted_object, get_atop]
      cases heap.get address with
      | list items => simp [Object.shifted]
      | _ => rfl
  | _ => rfl

/-- A record takes a state alike. -/
theorem applyState_atop (state : Value) :
    (record.shifted below.shift).applyState (heap.atop below)
        (state.shifted below.shift) =
      (record.applyState heap state).map (shifted below.shift) := by
  have merged := mergeState_atop below heap record state
  have sameStrategy : (record.shifted below.shift).strategy =
      record.strategy := rfl
  unfold applyState
  rw [sameStrategy]
  cases record.strategy with
  | extension target kind argumentNames names =>
      dsimp only
      rw [entries?_atop, stateItems?_atop, typeName_atop]
      cases heap.entries? state with
      | some entries =>
          exact congrArg Except.ok (update_shifted below.shift record entries)
      | none =>
          cases stateItems? heap state with
          | none => rfl
          | some values =>
              dsimp only [Option.map_none, Option.map_some]
              rw [setField_shifted, fillPositions_shifted]
              split <;> rfl
  | _ => exact merged

end PickleGraph.Record
