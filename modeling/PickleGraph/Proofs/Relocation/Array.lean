import PickleGraph.NdArray.OfRecord
import PickleGraph.Proofs.Relocation.Dtype

/-!
# Arrays over another heap

The values of an array are arranged without a look at them. A record rebuilds
the same array over another heap.
-/

namespace PickleGraph

open Actions

/-- A changed outcome is changed too where its refusals are failures. -/
theorem refused_map {α β : Type} (change : α → β)
    (outcome : Except Refusal α) :
    (liftM (outcome.map change) : Except Failure β) =
      (liftM outcome : Except Failure α).map change := by
  cases outcome <;> rfl

/-! ## Arrangements -/

section Arrangement

variable {α β : Type} (change : α → β)

theorem everyNth_map (count : Nat) (items : List α) :
    everyNth count (items.map change) =
      (everyNth count items).map change := by
  unfold everyNth
  rw [List.length_map, pieces_map, List.filterMap_map, List.map_filterMap]
  congr 1
  funext piece
  exact List.head?_map

theorem toRowMajor_map (shape : List Nat) (items : List α) :
    toRowMajor shape (items.map change) =
      (toRowMajor shape items).map change := by
  induction shape generalizing items with
  | nil => rfl
  | cons extent shape inductionHypothesis =>
      rw [toRowMajor, toRowMajor, List.isEmpty_map]
      split
      · rfl
      · rw [List.map_flatMap]
        congr 1
        funext index
        rw [← List.map_drop, everyNth_map, inductionHypothesis]

theorem ofRowMajor_map (shape : List Nat) (items : List α) :
    ofRowMajor shape (items.map change) =
      (ofRowMajor shape items).map change :=
  toRowMajor_map change shape.reverse items

end Arrangement

/-! ## Shapes and buffers -/

section Values

variable (shift : Shift)

namespace NdArray

theorem rearrange_shifted (array : NdArray) (shape : List Nat) :
    (array.shifted shift).rearrange shape =
      (array.rearrange shape).shifted shift := by
  obtain ⟨type, extents, content, writable⟩ := array
  cases content with
  | raw data => rfl
  | items values =>
      show ArrayContent.items (toRowMajor shape
        (ofRowMajor extents (values.map (Value.shifted shift)))) = _
      rw [ofRowMajor_map, toRowMajor_map]
      rfl

@[simp] theorem reshape_shifted (array : NdArray) (extents : List Int)
    (firstFastest : Bool) :
    (array.shifted shift).reshape extents firstFastest =
      (array.reshape extents firstFastest).map (shifted shift) := by
  unfold reshape
  rw [size_shifted]
  cases completeShape? array.size extents with
  | none => rfl
  | some shape =>
      have rearranged := rearrange_shifted shift array shape
      dsimp only
      show (if !fits array.type shape then .error .badValue
        else if firstFastest then
          .ok { array.shifted shift with
            shape
            content := (array.shifted shift).rearrange shape }
        else .ok { array.shifted shift with shape } :
          Except Refusal NdArray) = _
      rw [rearranged]
      cases fits array.type shape with
      | false => rfl
      | true => cases firstFastest <;> rfl

@[simp] theorem extentsOf_shifted (values : List Value) :
    extentsOf (values.map (Value.shifted shift)) = extentsOf values := by
  unfold extentsOf
  rw [List.length_map, List.mapM_map]
  simp only [Function.comp_def, Value.exactInt?_shifted]

/-- The elements of a buffer are no values of a heap. -/
theorem ofBuffer_shifted (type : Dtype) (data : Bytes) (count : Option Nat)
    (writable : Bool) :
    (ofBuffer type data count writable).map (shifted shift) =
      ofBuffer type data count writable := by
  unfold ofBuffer
  split
  · rfl
  · split
    · rfl
    · refine (except_bind_map (shifted shift) _ _).trans ?_
      refine except_bind_congr fun count => ?_
      dsimp only
      split <;> rfl

end NdArray

namespace Heap

@[simp] theorem extentWord_shifted (value : Value) :
    extentWord (value.shifted shift) = extentWord value := by
  unfold extentWord
  rw [Value.number?_shifted, Value.plain_shifted]
  cases value.plain <;> rfl

@[simp] theorem elementCount_shifted (extents : List Value) :
    elementCount (extents.map (Value.shifted shift)) =
      elementCount extents := by
  unfold elementCount
  rw [List.mapM_map]
  simp only [Function.comp_def, extentWord_shifted]

@[simp] theorem bufferOctets_shifted (value : Value) :
    bufferOctets (value.shifted shift) =
      (bufferOctets value).map (Value.shifted shift) := by
  unfold bufferOctets
  rw [Value.plain_shifted]
  cases value.plain with
  | str text =>
      dsimp only [Value.shifted]
      split <;> rfl
  | _ => rfl

end Heap

end Values

namespace Heap

variable (below heap : Heap)

@[simp] theorem buffer?_atop (value : Value) :
    (heap.atop below).buffer? (value.shifted below.shift) =
      heap.buffer? value := by
  unfold buffer?
  rw [Value.plain_shifted]
  cases value.plain with
  | object address =>
      simp only [Value.shifted_object, get_atop]
      cases heap.get address with
      | array array =>
          obtain ⟨type, shape, content, writable⟩ := array
          cases content <;> rfl
      | _ => rfl
  | _ => rfl

@[simp] theorem length_atop (value : Value) :
    (heap.atop below).length (value.shifted below.shift) =
      heap.length value := by
  unfold length
  rw [Value.plain_shifted]
  cases value.plain with
  | object address =>
      simp only [Value.shifted_object, get_atop]
      cases heap.get address <;>
        simp [Object.shifted, MemoryView.shifted, MemoryView.length,
          NdArray.shifted]
  | tuple items => simp
  | frozenset members => simp
  | _ => rfl

@[simp] theorem lend_atop (type : Dtype) (value : Value) :
    (heap.atop below).lend type (value.shifted below.shift) =
      (heap.lend type value).map (NdArray.shifted below.shift) := by
  unfold lend
  rw [buffer?_atop]
  cases heap.buffer? value with
  | none => rfl
  | some found =>
      exact (NdArray.ofBuffer_shifted below.shift type found.1 none
        found.2).symm

/-! ## Arrays of objects -/

theorem lentArray?_atop (value : Value) :
    (heap.atop below).lentArray? (value.shifted below.shift) =
      (heap.lentArray? value).map (NdArray.shifted below.shift) := by
  cases value with
  | object address =>
      simp only [lentArray?, Value.shifted_object, get_atop]
      cases heap.get address with
      | view view =>
          simp only [Object.shifted, MemoryView.shifted, get_atop]
          cases heap.get view.source <;> rfl
      | _ => rfl
  | _ => rfl

theorem carryOver_elementValue (type : Dtype) (data : Bytes) :
    (heap.atop below).elementValue type data =
      carryValue below (heap.elementValue type data) := by
  unfold elementValue
  cases found : type.plainValue? data with
  | none => rfl
  | some value =>
      have same := Value.shifted_of_plainValue? below.shift found
      cases value with
      | float number mark => exact carryOver_float below heap number
      | complex re im mark => exact carryOver_complex below heap re im
      | _ => exact congrArg (·, heap.atop below) same.symm

theorem carryOver_foldl_elementValue (type : Dtype) (elements : List Bytes) :
    elements.foldl (fun (values, heap) element =>
        let (value, heap) := heap.elementValue type element
        (values ++ [value], heap)) ([], heap.atop below) =
      carryItems below (elements.foldl (fun (values, heap) element =>
        let (value, heap) := heap.elementValue type element
        (values ++ [value], heap)) ([], heap)) := by
  refine (congrArg (List.foldl _ _) (List.map_id elements).symm).trans ?_
  refine carryOver_foldl below (List.map (Value.shifted below.shift)) id
    (fun state element => ?_) elements ([], heap)
  have made := carryOver_elementValue below state.2 type element
  unfold carryValue carryOver at made
  unfold carryOver
  dsimp only [id] at made ⊢
  rw [made, List.map_append]
  rfl

theorem carryOver_elementValues (array : NdArray) :
    (heap.atop below).elementValues (array.shifted below.shift) =
      carryItems below (heap.elementValues array) := by
  obtain ⟨type, shape, content, writable⟩ := array
  cases content with
  | items values => rfl
  | raw data =>
      exact carryOver_foldl_elementValue below heap type
        (pieces type.itemSize (shape.foldl (· * ·) 1) data)

theorem carryOver_spread (count : Nat) (value : Value) :
    (heap.atop below).spread count (value.shifted below.shift) =
      (heap.spread count value).map (carryItems below) := by
  unfold spread
  rw [lentArray?_atop]
  cases heap.lentArray? value with
  | some array =>
      have made := carryOver_elementValues below heap array
      dsimp only [Option.map_some, NdArray.shifted] at made ⊢
      split
      · rw [made]
        rfl
      · rfl
  | none =>
      dsimp only [Option.map_none]
      cases value with
      | tuple items =>
          rw [Value.shifted_tuple]
          rfl
      | object address =>
          simp only [Value.shifted_object, get_atop]
          cases heap.get address <;>
            simp [Object.shifted, Except.map, carryOver]
      | _ => simp [Value.shifted, Except.map, carryOver]

/-! ## Arrays rebuilt from records -/

/-- A line of elements is brought into the same shape. -/
theorem reshaped_atop (line : NdArray) (extents : List Value)
    (firstFastest : Bool) :
    (do return (← (line.shifted below.shift).reshape
      (← NdArray.extentsOf (extents.map (Value.shifted below.shift)))
      firstFastest, heap.atop below) : Except Failure (NdArray × Heap)) =
      (do return (← line.reshape (← NdArray.extentsOf extents) firstFastest,
        heap) : Except Failure (NdArray × Heap)).map
          (carryOver below (NdArray.shifted below.shift)) := by
  rw [NdArray.extentsOf_shifted, except_bind_map]
  refine except_bind_congr fun extents => ?_
  rw [NdArray.reshape_shifted, refused_map, except_map_bind, except_bind_map]
  rfl

/-- A record rebuilds the same array. -/
theorem carryOver_arrayOfRecord (record : Record) :
    (heap.atop below).arrayOfRecord (record.shifted below.shift) =
      (heap.arrayOfRecord record).map
        (carryOver below (NdArray.shifted below.shift)) := by
  have shape : ((record.shifted below.shift).field? "shape").getD
      (.tuple []) =
        ((record.field? "shape").getD (.tuple [])).shifted below.shift := by
    rw [Record.field?_shifted]
    cases record.field? "shape" <;> rfl
  unfold arrayOfRecord
  simp only [shape, Record.field_shifted]
  rw [carryOver_iterate, refused_map, except_map_bind, except_bind_map]
  refine except_bind_congr fun listed => ?_
  obtain ⟨extents, heap⟩ := listed
  dsimp only [carryItems, carryOver]
  rw [toDtype_atop, except_bind_map]
  refine except_bind_congr fun type => ?_
  rw [isTrue_atop, except_bind_map]
  refine except_bind_congr fun firstFastest => ?_
  split
  · rw [length_atop, except_bind_map]
    refine except_bind_congr fun count => ?_
    rw [carryOver_spread, refused_map, except_map_bind, except_bind_map]
    refine except_bind_congr fun spread => ?_
    obtain ⟨values, heap⟩ := spread
    exact reshaped_atop below heap ⟨.object, [count], .items values, true⟩
      extents firstFastest
  · rw [bufferOctets_shifted, refused_map, except_map_bind, except_bind_map]
    refine except_bind_congr fun data => ?_
    rw [elementCount_shifted, except_bind_map]
    refine except_bind_congr fun count => ?_
    rw [length_atop, except_bind_map]
    refine except_bind_congr fun length => ?_
    split
    · rfl
    · rw [lend_atop, refused_map, except_map_bind, except_bind_map]
      refine except_bind_congr fun line => ?_
      exact reshaped_atop below heap line extents firstFastest

end Heap

end PickleGraph
