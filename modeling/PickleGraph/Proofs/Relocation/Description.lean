import Mathlib.Data.Finset.Card
import Mathlib.Data.Finset.Range
import PickleGraph.Proofs.Relocation.Heap
import PickleGraph.Value.Description

/-!
# Descriptions over another heap

The description of an object cuts short what is inside itself, so no more
objects are nested than there are, and a greater depth gives no other text. The
values of a heap are therefore described alike over another heap.
-/

namespace PickleGraph

namespace Value

variable {shift : Shift}

mutual

theorem describe_shifted {object other : Address → Text}
    (same : ∀ address, other (address + shift.objects) = object address)
    (value : Value) :
    (value.shifted shift).describe other = value.describe object := by
  cases value with
  | tuple items =>
      rw [shifted_tuple, describe, describe, describeAll_shifted same items]
  | frozenset members =>
      cases members with
      | nil => rfl
      | cons first rest =>
          have parts := describeAll_shifted same (first :: rest)
          rw [shifted_frozenset, List.map_cons, describe, describe,
            ← List.map_cons, parts]
          all_goals nofun
  | object address => exact same address
  | _ => rfl

theorem describeAll_shifted {object other : Address → Text}
    (same : ∀ address, other (address + shift.objects) = object address)
    (items : List Value) :
    describe.describeAll other (items.map (shifted shift)) =
      describe.describeAll object items := by
  cases items with
  | nil => rfl
  | cons item rest =>
      rw [List.map_cons, describe.describeAll, describe.describeAll,
        describe_shifted same item, describeAll_shifted same rest]

end

mutual

theorem isShowable_shifted {object other : Address → Bool}
    (same : ∀ address, other (address + shift.objects) = object address)
    (value : Value) :
    (value.shifted shift).isShowable other = value.isShowable object := by
  cases value with
  | tuple items =>
      rw [shifted_tuple, isShowable, isShowable,
        areShowable_shifted same items]
  | frozenset members =>
      rw [shifted_frozenset, isShowable, isShowable,
        areShowable_shifted same members]
  | object address => exact same address
  | _ => rfl

theorem areShowable_shifted {object other : Address → Bool}
    (same : ∀ address, other (address + shift.objects) = object address)
    (items : List Value) :
    isShowable.areShowable other (items.map (shifted shift)) =
      isShowable.areShowable object items := by
  cases items with
  | nil => rfl
  | cons item rest =>
      rw [List.map_cons, isShowable.areShowable, isShowable.areShowable,
        isShowable_shifted same item, areShowable_shifted same rest]

end

end Value

/-- The values that an object shows are shown over another heap. -/
theorem Object.shown_shifted (shift : Shift) (object : Object) :
    (object.shifted shift).shown =
      object.shown.map (Value.shifted shift) := by
  cases object with
  | list items => exact Array.toList_map
  | dict ordered entries =>
      simp [shifted, shown, shiftedEntry, Function.comp_def]
  | array content =>
      obtain ⟨type, shape, content, writable⟩ := content
      cases content with
      | raw data => rfl
      | items values =>
          simp only [shifted, shown, NdArray.shifted, ArrayContent.shifted,
            List.length_map]
          by_cases small : values.length ≤ 1000
          · rw [if_pos small, if_pos small]
          · rw [if_neg small, if_neg small]
            rfl
  | _ => rfl

namespace Heap

/-! ## Depths -/

/-- How many objects are left that can be nested in these. -/
def room (heap : Heap) (outer : List Address) : Nat :=
  (Finset.range heap.objects.size \ outer.toFinset).card

theorem room_nil (heap : Heap) : heap.room [] = heap.objects.size := by
  simp [room]

variable {heap : Heap} {outer : List Address} {address : Address}

/-- An object that is nested in others takes some of the room for further
ones. -/
theorem room_cons_lt (bound : address < heap.objects.size)
    (fresh : address ∉ outer) :
    heap.room (address :: outer) < heap.room outer := by
  have member : address ∈ Finset.range heap.objects.size \ outer.toFinset :=
    Finset.mem_sdiff.mpr ⟨Finset.mem_range.mpr bound, by simpa using fresh⟩
  have smaller := Finset.card_erase_lt_of_mem member
  unfold room
  rw [List.toFinset_cons, Finset.sdiff_insert]
  exact smaller

theorem get_of_le (beyond : heap.objects.size ≤ address) :
    heap.get address = .plain := by
  unfold get get?
  rw [Array.getElem?_eq_none beyond]
  rfl

/-- What is found of objects with more depth than room is complete, if it depends
on nothing but what is found inside them. -/
theorem eq_of_room {α : Type} {found : Nat → List Address → Address → α}
    (inside : ∀ depth deeper outer address,
      (address ∉ outer → address < heap.objects.size →
        found depth (address :: outer) = found deeper (address :: outer)) →
      found (depth + 1) outer address = found (deeper + 1) outer address)
    {depth deeper : Nat} (enough : heap.room outer < depth)
    (more : heap.room outer < deeper) :
    found depth outer address = found deeper outer address := by
  induction depth generalizing deeper outer address with
  | zero => exact absurd enough (Nat.not_lt_zero _)
  | succ depth inductionHypothesis =>
      cases deeper with
      | zero => exact absurd more (Nat.not_lt_zero _)
      | succ deeper =>
          refine inside depth deeper outer address fun fresh bound => ?_
          have shorter := room_cons_lt bound fresh
          funext other
          exact inductionHypothesis
            (Nat.lt_of_lt_of_le shorter (Nat.le_of_lt_succ enough))
            (Nat.lt_of_lt_of_le shorter (Nat.le_of_lt_succ more))

theorem describeObject_of_room {depth deeper : Nat}
    (enough : heap.room outer < depth) (more : heap.room outer < deeper) :
    heap.describeObject depth outer address =
      heap.describeObject deeper outer address := by
  refine eq_of_room (fun depth deeper outer address inside => ?_) enough more
  rw [describeObject, describeObject]
  by_cases nested : address ∈ outer
  · rw [List.contains_iff_mem.mpr nested]
    cases heap.get address <;> rfl
  · by_cases bound : address < heap.objects.size
    · rw [inside nested bound]
    · rw [get_of_le (Nat.le_of_not_lt bound)]

theorem objectIsShowable_of_room {depth deeper : Nat}
    (enough : heap.room outer < depth) (more : heap.room outer < deeper) :
    heap.objectIsShowable depth outer address =
      heap.objectIsShowable deeper outer address := by
  refine eq_of_room (fun depth deeper outer address inside => ?_) enough more
  rw [objectIsShowable, objectIsShowable]
  by_cases nested : address ∈ outer
  · rw [List.contains_iff_mem.mpr nested, Bool.true_or, Bool.true_or]
  · by_cases bound : address < heap.objects.size
    · rw [inside nested bound]
    · rw [get_of_le (Nat.le_of_not_lt bound)]
      rfl

/-! ## Descriptions of objects -/

section Over

variable (below heap : Heap)

theorem contains_shifted (outer : List Address) (address : Nat) :
    (outer.map (· + below.shift.objects)).contains
        (address + below.shift.objects) = outer.contains address := by
  rw [Bool.eq_iff_iff, List.contains_iff_mem, List.contains_iff_mem,
    List.mem_map]
  constructor
  · rintro ⟨other, member, same⟩
    rw [← Nat.add_right_cancel same]
    exact member
  · intro member
    exact ⟨address, member, rfl⟩

theorem describeObject_atop (depth : Nat) (outer : List Address)
    (address : Address) :
    (heap.atop below).describeObject depth
        (outer.map (· + below.shift.objects))
        (address + below.shift.objects) =
      heap.describeObject depth outer address := by
  induction depth generalizing outer address with
  | zero => rfl
  | succ depth inductionHypothesis =>
      rw [describeObject, describeObject, get_atop, contains_shifted]
      have inner := Value.describe_shifted
        (inductionHypothesis (address :: outer))
      rw [List.map_cons] at inner
      generalize Value.describe (heap.describeObject depth
        (address :: outer)) = inside at inner ⊢
      generalize Value.describe ((heap.atop below).describeObject depth
        ((address + below.shift.objects) ::
          outer.map (· + below.shift.objects))) = insideOver at inner ⊢
      have innerAll : ∀ values : List Value,
          (values.map (Value.shifted below.shift)).map insideOver =
            values.map inside := by
        intro values
        rw [List.map_map]
        exact List.map_congr_left fun value _ => inner value
      have innerEntries : ∀ (form : Text → Text → Text)
          (entries : List (Value × Value)),
          ((entries.map (shiftedEntry below.shift)).map fun entry =>
              form (insideOver entry.1) (insideOver entry.2)) =
            entries.map fun entry =>
              form (inside entry.1) (inside entry.2) := by
        intro form entries
        rw [List.map_map]
        refine List.map_congr_left fun entry _ => ?_
        show form (insideOver (entry.1.shifted below.shift))
          (insideOver (entry.2.shifted below.shift)) = _
        rw [inner, inner]
      cases heap.get address with
      | list items =>
          simp only [Object.shifted, Array.toList_map, innerAll]
      | dict ordered entries =>
          cases ordered with
          | false =>
              have same := innerEntries Notation.pair entries
              simp only [Object.shifted]
              rw [same]
          | true =>
              cases entries with
              | nil => rfl
              | cons first rest =>
                  have same := innerEntries
                    (fun key value => Notation.tuple [key, value])
                    (first :: rest)
                  simp only [List.map_cons] at same
                  simp only [Object.shifted, List.map_cons]
                  rw [same]
      | set members =>
          cases members with
          | nil => rfl
          | cons first rest =>
              have same := innerAll (first :: rest)
              simp only [Object.shifted, List.map_cons] at same ⊢
              rw [same]
      | record record =>
          simp [Object.shifted, Record.describe, Record.shifted]
      | _ => rfl

/-- Values are described alike over another heap. -/
@[simp] theorem describe_atop (value : Value) :
    (heap.atop below).describe (value.shifted below.shift) =
      heap.describe value := by
  refine Value.describe_shifted (fun address => ?_) value
  have here := describeObject_atop below heap
    ((heap.atop below).objects.size + 1) [] address
  rw [List.map_nil] at here
  rw [here]
  refine describeObject_of_room ?_ ?_
  · rw [room_nil, size_atop]
    omega
  · rw [room_nil]
    omega

/-! ## Quotations -/

theorem objectIsShowable_atop (depth : Nat) (outer : List Address)
    (address : Address) :
    (heap.atop below).objectIsShowable depth
        (outer.map (· + below.shift.objects))
        (address + below.shift.objects) =
      heap.objectIsShowable depth outer address := by
  induction depth generalizing outer address with
  | zero => rfl
  | succ depth inductionHypothesis =>
      have inner := Value.isShowable_shifted
        (inductionHypothesis (address :: outer))
      rw [objectIsShowable, objectIsShowable, get_atop, contains_shifted,
        Object.shown_shifted, List.all_map]
      congr 2
      funext value
      exact inner value

@[simp] theorem isShowable_atop (value : Value) :
    (heap.atop below).isShowable (value.shifted below.shift) =
      heap.isShowable value := by
  refine Value.isShowable_shifted (fun address => ?_) value
  have here := objectIsShowable_atop below heap
    ((heap.atop below).objects.size + 1) [] address
  rw [List.map_nil] at here
  rw [here]
  refine objectIsShowable_of_room ?_ ?_
  · rw [room_nil, size_atop]
    omega
  · rw [room_nil]
    omega

@[simp] theorem quote_atop (value : Value) :
    (heap.atop below).quote (value.shifted below.shift) =
      heap.quote value := by
  unfold quote
  rw [isShowable_atop, describe_atop]

@[simp] theorem wording_atop (value : Value) :
    (heap.atop below).wording (value.shifted below.shift) =
      heap.wording value := by
  have quoted := quote_atop below heap value
  cases value with
  | str text => rfl
  | _ => exact quoted

end Over

end Heap

end PickleGraph
