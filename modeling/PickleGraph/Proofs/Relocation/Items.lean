import PickleGraph.Proofs.Relocation.Heap

/-!
# Items over another heap

Values give the same items over another heap, whether one after the other or by
a key or a position.
-/

namespace PickleGraph

open Actions

/-! ## Items of arrays -/

theorem pieces_map {α β : Type} (change : α → β) (size count : Nat)
    (items : List α) :
    pieces size count (items.map change) =
      (pieces size count items).map (List.map change) := by
  induction count generalizing items with
  | zero => rfl
  | succ count inductionHypothesis =>
      rw [pieces, pieces, ← List.map_take, ← List.map_drop,
        inductionHypothesis, List.map_cons]

@[simp] theorem Value.shifted_scalarOf (shift : Shift) (type : Dtype)
    (data : Bytes) :
    (type.scalarOf data).shifted shift = type.scalarOf data := by
  unfold Dtype.scalarOf
  split
  · dsimp only
    split <;> rfl
  · rfl

namespace Heap

variable (below heap : Heap)

/-! ## Items of values -/

/-- Items and their heap, over the heap below. -/
abbrev carryItems (made : List Value × Heap) : List Value × Heap :=
  carryOver below (List.map (Value.shifted below.shift)) made

/-- Values that are made one after the other are made so over another heap. -/
theorem carryOver_foldl {α α' β β' : Type} (change : β → β')
    (before : α → α') {step : β × Heap → α → β × Heap}
    {further : β' × Heap → α' → β' × Heap}
    (carries : ∀ state item,
      further (carryOver below change state) (before item) =
        carryOver below change (step state item))
    (items : List α) (state : β × Heap) :
    (items.map before).foldl further (carryOver below change state) =
      carryOver below change (items.foldl step state) := by
  induction items generalizing state with
  | nil => rfl
  | cons item rest inductionHypothesis =>
      rw [List.map_cons, List.foldl_cons, List.foldl_cons, carries]
      exact inductionHypothesis (step state item)

theorem carryOver_iterateArray (array : NdArray) :
    (array.shifted below.shift).iterate (heap.atop below) =
      (array.iterate heap).map (carryItems below) := by
  obtain ⟨type, shape, content, writable⟩ := array
  rcases shape with _ | ⟨count, _ | ⟨second, others⟩⟩
  · rfl
  · cases content with
    | raw data =>
        refine congrArg (fun items => Except.ok (items, heap.atop below)) ?_
        rw [List.map_map]
        refine List.map_congr_left fun element _ => ?_
        exact (Value.shifted_scalarOf below.shift type element).symm
    | items values => rfl
  · have contents : NdArray.rowContents count
        ((second :: others).foldl (· * ·) 1)
        (content.shifted below.shift) type =
          (NdArray.rowContents count ((second :: others).foldl (· * ·) 1)
            content type).map (ArrayContent.shifted below.shift) := by
      cases content with
      | raw data =>
          rw [ArrayContent.shifted, NdArray.rowContents, List.map_map]
          rfl
      | items values =>
          rw [ArrayContent.shifted, NdArray.rowContents,
            NdArray.rowContents, List.map_map, pieces_map, List.map_map]
          rfl
    refine congrArg Except.ok ?_
    show List.foldl _ _ (NdArray.rowContents count _
      (content.shifted below.shift) type) = _
    rw [contents]
    refine carryOver_foldl below (List.map (Value.shifted below.shift))
      (ArrayContent.shifted below.shift) (fun state content => ?_) _
      ([], heap)
    have made := carryOver_alloc below state.2
      (.array ⟨type, second :: others, content, writable⟩)
    unfold carryValue carryOver at made
    unfold carryOver
    dsimp only [Object.shifted, NdArray.shifted] at made ⊢
    rw [made, List.map_append]
    rfl

theorem carryOver_floats (numbers : List Binary64) :
    (heap.atop below).floats numbers =
      carryItems below (heap.floats numbers) := by
  refine (congrArg (heap.atop below).floats
    (List.map_id numbers).symm).trans ?_
  refine carryOver_foldl below (List.map (Value.shifted below.shift)) id
    (fun state number => ?_) numbers ([], heap)
  have float := carryOver_float below state.2 number
  unfold carryValue carryOver at float
  unfold carryOver
  dsimp only [id] at float ⊢
  rw [float, List.map_append]
  rfl

theorem map_shifted_filterMap (shift : Shift) (type : Dtype)
    (elements : List Bytes) :
    (elements.filterMap type.plainValue?).map (Value.shifted shift) =
      elements.filterMap type.plainValue? := by
  rw [List.map_filterMap]
  congr 1
  funext element
  cases found : type.plainValue? element with
  | none => rfl
  | some value =>
      exact congrArg some (Value.shifted_of_plainValue? shift found)

theorem carryOver_iterateView (view : MemoryView) :
    (heap.atop below).iterateView (view.shifted below.shift) =
      (heap.iterateView view).map (carryItems below) := by
  obtain ⟨source, content, shape⟩ := view
  rcases shape with _ | ⟨count, _ | ⟨second, others⟩⟩
  · rfl
  · have bytes : (byteValues content).map (Value.shifted below.shift) =
        byteValues content := List.map_map
    unfold iterateView
    simp only [MemoryView.shifted, get_atop]
    cases heap.get source with
    | array array =>
        have elements := map_shifted_filterMap below.shift array.type
          (pieces array.type.itemSize count content)
        simp only [Object.shifted, NdArray.shifted]
        split
        · simp [Except.map, carryOver, elements]
        · simp [Except.map, carryOver, elements]
        · simp [Except.map, carryOver, elements]
        · split
          · rw [carryOver_floats]
            rfl
          · rfl
        · rfl
    | _ => simp [Object.shifted, Except.map, carryOver, bytes]
  · rfl

/-- The items of a value are made and given alike. -/
theorem carryOver_iterate (value : Value) :
    (heap.atop below).iterate (value.shifted below.shift) =
      (heap.iterate value).map (carryItems below) := by
  have bytes : ∀ content, (byteValues content).map
      (Value.shifted below.shift) = byteValues content :=
    fun content => List.map_map
  unfold iterate
  rw [Value.plain_shifted]
  cases value.plain with
  | object address =>
      simp only [Value.shifted_object, iterateObject, get_atop]
      cases heap.get address with
      | view view => exact carryOver_iterateView below heap view
      | array array => exact carryOver_iterateArray below heap array
      | bytearray content => simp [Object.shifted, Except.map, carryOver, bytes]
      | list items => simp [Object.shifted, Except.map, carryOver]
      | dict ordered entries =>
          simp [Object.shifted, Except.map, carryOver, shiftedEntry,
            Function.comp_def]
      | _ => rfl
  | bytes content => simp [Value.shifted, Except.map, carryOver, bytes]
  | str text => simp [Except.map, carryOver, Function.comp_def]
  | tuple items => simp [Except.map, carryOver]
  | frozenset members => simp [Except.map, carryOver]
  | _ => rfl

/-- A check that passes the same items passes the same lists of them. -/
theorem forM_shifted {ε : Type} {shift : Shift}
    {check other : Value → Except ε Unit}
    (same : ∀ value, other (value.shifted shift) = check value)
    (items : List Value) :
    (items.map (Value.shifted shift)).forM other = items.forM check := by
  rw [List.forM_eq_forM, List.forM_map, funext same]

/-- A check that passes the same items passes them over the heap below. -/
theorem carryOver_iterateChecked {check other : Value → Except Refusal Unit}
    (same : ∀ value, other (value.shifted below.shift) = check value)
    (value : Value) :
    (heap.atop below).iterateChecked other (value.shifted below.shift) =
      (heap.iterateChecked check value).map (carryItems below) := by
  have checked := forM_shifted same
  unfold iterateChecked
  rw [record?_atop, carryOver_iterate]
  cases heap.record? value with
  | some found =>
      simp only [Option.map_some, Record.numbered_shifted, checked]
      cases found.2.numbered.forM check <;> rfl
  | none =>
      cases heap.iterate value with
      | error refusal => rfl
      | ok made =>
          obtain ⟨items, after⟩ := made
          show (List.forM (items.map (Value.shifted below.shift)) other >>=
              fun _ => _) = (items.forM check >>= fun _ =>
                .ok (items, after)).map (carryItems below)
          rw [checked]
          cases items.forM check <;> rfl

theorem carryOver_sequence (value : Value) :
    (heap.atop below).sequence (value.shifted below.shift) =
      (heap.sequence value).map (carryItems below) := by
  have iterated := carryOver_iterate below heap value
  unfold sequence
  rw [Value.plain_shifted]
  cases value.plain with
  | object address =>
      simp only [Value.shifted_object, get_atop]
      cases heap.get address with
      | list items => exact iterated
      | bytearray content => exact iterated
      | array array => exact iterated
      | _ => rfl
  | frozenset members =>
      rw [Value.shifted_frozenset]
      rfl
  | tuple items =>
      rw [Value.shifted_tuple]
      exact iterated
  | _ => exact iterated

@[simp] theorem atPosition_shifted (items : List Value) (position : Value) :
    atPosition (items.map (Value.shifted below.shift))
        (position.shifted below.shift) =
      (atPosition items position).map (Value.shifted below.shift) := by
  unfold atPosition
  rw [Value.position?_shifted]
  cases position.position? with
  | none => rfl
  | some number =>
      dsimp only
      rw [List.length_map]
      generalize (if number < 0 then number + (items.length : Int)
        else number) = index
      by_cases negative : index < 0
      · rw [if_pos negative, if_pos negative]
        rfl
      · rw [if_neg negative, if_neg negative, List.getElem?_map]
        cases items[index.toNat]? <;> rfl

@[simp] theorem lookup_atop (key : Value) (entries : List (Value × Value)) :
    Entries.lookup (heap.atop below) (key.shifted below.shift)
        (entries.map (shiftedEntry below.shift)) =
      (Entries.lookup heap key entries).map (Value.shifted below.shift) := by
  unfold Entries.lookup
  rw [checkHashable_atop, Entries.find?_shifted]
  cases heap.checkHashable key with
  | error refusal => rfl
  | ok _ => cases Entries.find? key entries <;> rfl

@[simp] theorem item_atop (value key : Value) :
    (heap.atop below).item (value.shifted below.shift)
        (key.shifted below.shift) =
      (heap.item value key).map (Value.shifted below.shift) := by
  have positioned : (do
        let found ← (heap.atop below).sequence (value.shifted below.shift)
        atPosition found.1 (key.shifted below.shift)) = (do
        let found ← heap.sequence value
        atPosition found.1 key : Except Refusal Value).map
          (Value.shifted below.shift) := by
    rw [carryOver_sequence]
    cases heap.sequence value with
    | error refusal => rfl
    | ok made => exact atPosition_shifted below made.1 key
  unfold item
  cases value with
  | object address =>
      simp only [Value.shifted_object, get_atop] at positioned ⊢
      cases heap.get address with
      | dict ordered entries => exact lookup_atop below heap key entries
      | record record => exact lookup_atop below heap key record.fields
      | _ => exact positioned
  | tuple items =>
      rw [Value.shifted_tuple] at positioned ⊢
      exact positioned
  | frozenset members =>
      rw [Value.shifted_frozenset] at positioned ⊢
      exact positioned
  | _ => exact positioned

@[simp] theorem firstTwo_atop (value : Value) :
    (heap.atop below).firstTwo (value.shifted below.shift) =
      (heap.firstTwo value).map (shiftedEntry below.shift) := by
  unfold firstTwo
  rw [carryOver_sequence]
  cases heap.sequence value with
  | error refusal => rfl
  | ok made =>
      obtain ⟨items, after⟩ := made
      rcases items with _ | ⟨first, _ | ⟨second, rest⟩⟩ <;> rfl

end Heap

end PickleGraph
