import PickleGraph.Construction.Instance
import PickleGraph.Literal.Basic
import PickleGraph.Proofs.Array.Order
import PickleGraph.Proofs.Heap.Confinement
import PickleGraph.Proofs.Heap.Growth

/-!
# What is made in a confined heap

Items, elements, literals and instances are made of what their maker has in hand
and of new objects, so they do not lead out of a confined heap.
-/

namespace PickleGraph

open Actions

/-! ## Makers -/

namespace Heap

/-- From a confined heap the maker gives what is confined with it. -/
def Gives {ε α : Type} (start : Heap) (held : List Address)
    (shown : α → List Address) (before : Heap)
    (outcome : Except ε (α × Heap)) : Prop :=
  start.Confines held before → ∀ result after,
    outcome = .ok (result, after) →
      start.Confines (shown result ++ held) after

namespace Gives

variable {ε ε' α β : Type} {start before : Heap} {held : List Address}
variable {shown : α → List Address}

theorem ok {made : α × Heap}
    (confines : start.Confines held before →
      start.Confines (shown made.1 ++ held) made.2) :
    Gives (ε := ε) start held shown before (.ok made) := by
  rintro start _ _ ⟨⟩
  exact confines start

/-- What is in hand already is given. -/
theorem same {result : α} (member : shown result ⊆ held) :
    Gives (ε := ε) start held shown before (.ok (result, before)) :=
  ok fun confines => confines.mono
    (List.append_subset.mpr ⟨member, List.Subset.refl _⟩)

theorem error {failure : ε} :
    Gives start held shown before (.error failure) := by
  rintro _ _ _ ⟨⟩

theorem bind {outcome : Except ε β} {next : β → Except ε (α × Heap)}
    (gives : ∀ value, outcome = .ok value →
      Gives start held shown before (next value)) :
    Gives start held shown before (outcome >>= next) := by
  intro confines result after success
  obtain ⟨value, first, second⟩ := except_bind_eq_ok_iff.mp success
  exact gives value first confines result after second

/-- Two makers in a row: the second one has in hand what the first one gave. -/
theorem seq {other : β → List Address} {outcome : Except ε (β × Heap)}
    {next : β × Heap → Except ε (α × Heap)}
    (first : Gives start held other before outcome)
    (second : ∀ value middle,
      Gives start (other value ++ held) shown middle (next (value, middle))) :
    Gives start held shown before (outcome >>= next) := by
  intro confines result after success
  obtain ⟨⟨value, middle⟩, made, rest⟩ :=
    except_bind_eq_ok_iff.mp success
  have given := second value middle (first confines value middle made)
    result after rest
  exact given.mono (by simp)

theorem mapError {outcome : Except ε (α × Heap)} (change : ε → ε')
    (gives : Gives start held shown before outcome) :
    Gives start held shown before (outcome.mapError change) := by
  intro confines result after success
  exact gives confines result after (mapError_eq_ok_iff.mp success)

/-- A new object of what is in hand. -/
theorem alloc {object : Object} (member : object.addresses ⊆ held) :
    Gives (ε := ε) start held Value.addresses before
      (.ok (before.alloc object)) :=
  ok fun confines => confines.alloc member

/-- Values made one after the other. -/
theorem foldl {step : List Value × Heap → β → List Value × Heap}
    {items : List β}
    (keeps : ∀ item ∈ items, ∀ values heap,
      start.Confines (Values.addresses values ++ held) heap →
        start.Confines (Values.addresses (step (values, heap) item).1 ++ held)
          (step (values, heap) item).2) :
    Gives (ε := ε) start held Values.addresses before
      (.ok (items.foldl step ([], before))) := by
  have kept : ∀ (items : List β) (made : List Value × Heap),
      (∀ item ∈ items, ∀ values heap,
        start.Confines (Values.addresses values ++ held) heap →
          start.Confines
            (Values.addresses (step (values, heap) item).1 ++ held)
            (step (values, heap) item).2) →
      start.Confines (Values.addresses made.1 ++ held) made.2 →
      start.Confines (Values.addresses (items.foldl step made).1 ++ held)
        (items.foldl step made).2 := by
    intro items
    induction items with
    | nil => exact fun _ _ confines => confines
    | cons item rest inductionHypothesis =>
        intro made keeps confines
        have first := keeps item List.mem_cons_self _ _ confines
        exact inductionHypothesis _
          (fun other member => keeps other (List.mem_cons_of_mem _ member))
          first
  exact ok fun confines => kept items ([], before) keeps confines

end Gives

end Heap

/-! ## Parts of arrays -/

namespace NdArray

theorem addresses_reshape {array after : NdArray} {extents : List Int}
    {firstFastest : Bool}
    (reshaped : array.reshape extents firstFastest = .ok after) :
    after.content.addresses ⊆ array.content.addresses := by
  have rearranged : ∀ shape, (array.rearrange shape).addresses ⊆
      array.content.addresses := by
    intro shape
    unfold rearrange
    cases array.content with
    | raw data => exact List.Subset.refl _
    | items values =>
        exact Values.addresses_mono
          (List.Subset.trans (toRowMajor_subset _ _) (toRowMajor_subset _ _))
  unfold reshape at reshaped
  split at reshaped
  · cases reshaped
  · split at reshaped
    · cases reshaped
    · split at reshaped
      · cases reshaped
        exact rearranged _
      · cases reshaped
        exact List.Subset.refl _

theorem addresses_ofBuffer {type : Dtype} {data : Bytes}
    {count : Option Nat} {writable : Bool} {array : NdArray}
    (made : ofBuffer type data count writable = .ok array) :
    array.content.addresses = [] := by
  unfold ofBuffer at made
  split at made
  · cases made
  · split at made
    · cases made
    · obtain ⟨found, _, made⟩ := except_bind_eq_ok_iff.mp made
      dsimp only at made
      split at made
      · cases made
        rfl
      · cases made

theorem addresses_rowContents {count rowSize : Nat} {type : Dtype}
    {content row : ArrayContent}
    (member : row ∈ rowContents count rowSize content type) :
    row.addresses ⊆ content.addresses := by
  cases content with
  | raw data =>
      obtain ⟨piece, _, rfl⟩ := List.mem_map.mp member
      exact List.nil_subset _
  | items values =>
      obtain ⟨piece, isPiece, rfl⟩ := List.mem_map.mp member
      exact Values.addresses_mono (subset_of_mem_pieces isPiece)

end NdArray

namespace Dtype

theorem addresses_plainValue? {type : Dtype} {data : Bytes} {value : Value}
    (plain : type.plainValue? data = some value) : value.addresses = [] := by
  unfold plainValue? at plain
  split at plain
  · dsimp only at plain
    split at plain
    · cases plain
      rfl
    · cases plain
      rfl
    · cases plain
      rfl
    · obtain ⟨number, _, rfl⟩ := Option.map_eq_some_iff.mp plain
      rfl
    · obtain ⟨real, _, plain⟩ := Option.bind_eq_some_iff.mp plain
      obtain ⟨imaginary, _, plain⟩ := Option.bind_eq_some_iff.mp plain
      cases plain
      rfl
    · cases plain
      rfl
    · cases plain
      rfl
    · cases plain
  · cases plain

theorem addresses_scalarOf (type : Dtype) (data : Bytes) :
    (type.scalarOf data).addresses = [] := by
  unfold scalarOf
  split
  · dsimp only
    split <;> rfl
  · rfl

end Dtype

/-- An array element mentions as little as its plain value. -/
theorem Value.addresses_plain (value : Value) :
    value.plain.addresses = value.addresses := by
  cases value with
  | scalar type data =>
      show ((type.plainValue? data).getD (.scalar type data)).addresses = []
      cases plain : type.plainValue? data with
      | none => rfl
      | some value => exact Dtype.addresses_plainValue? plain
  | _ => rfl

/-! ## Items of values -/

namespace Heap

variable {start heap : Heap} {held : List Address}

theorem addresses_float (heap : Heap) (number : Binary64) :
    (heap.float number).1.addresses = [] := by
  unfold Heap.float
  split <;> rfl

theorem addresses_complex (heap : Heap) (real imaginary : Binary64) :
    (heap.complex real imaginary).1.addresses = [] := by
  unfold Heap.complex
  split <;> rfl

theorem gives_iterateArray {array : NdArray}
    (member : array.content.addresses ⊆ held) :
    Gives start held Values.addresses heap (array.iterate heap) := by
  unfold NdArray.iterate
  split
  · exact .error
  · split
    · refine .same ?_
      rw [Values.addresses_eq_nil]
      · exact List.nil_subset _
      · intro value isElement
        obtain ⟨element, _, rfl⟩ := List.mem_map.mp isElement
        exact Dtype.addresses_scalarOf _ _
    · next values content =>
        rw [content] at member
        exact .same member
  · next count shape _ _ =>
      refine .foldl fun content isRow values heap confines => ?_
      have row := NdArray.addresses_rowContents isRow
      have mentions : (Object.array { array with shape, content }).addresses ⊆
          Values.addresses values ++ held :=
        List.Subset.trans row
          (List.Subset.trans member (List.subset_append_right _ _))
      refine (confines.alloc mentions).mono ?_
      simp

theorem gives_floats (numbers : List Binary64) :
    Gives (ε := Refusal) start held Values.addresses heap
      (.ok (heap.floats numbers)) := by
  refine .foldl fun number _ values heap confines => ?_
  have made := confines.of_objects_eq (objects_float heap number)
  refine made.mono ?_
  simp [addresses_float]

theorem addresses_byteValues (content : Bytes) :
    Values.addresses (byteValues content) = [] := by
  refine Values.addresses_eq_nil fun value member => ?_
  obtain ⟨byte, _, rfl⟩ := List.mem_map.mp member
  rfl

theorem gives_iterateView (view : MemoryView) :
    Gives start held Values.addresses heap (heap.iterateView view) := by
  have plain : ∀ (type : Dtype) (elements : List Bytes),
      Values.addresses (elements.filterMap type.plainValue?) ⊆ held := by
    intro type elements
    rw [Values.addresses_eq_nil]
    · exact List.nil_subset _
    · intro value member
      obtain ⟨element, _, isPlain⟩ := List.mem_filterMap.mp member
      exact Dtype.addresses_plainValue? isPlain
  unfold Heap.iterateView
  split
  · exact .error
  · split
    · dsimp only
      split
      · exact .same (plain _ _)
      · exact .same (plain _ _)
      · exact .same (plain _ _)
      · split
        · exact gives_floats _
        · exact .error
      · exact .error
    · refine .same ?_
      rw [addresses_byteValues]
      exact List.nil_subset _
  · exact .error

/-- The items of an object in hand. -/
theorem gives_iterateObject {address : Address} (member : address ∈ held) :
    Gives start held Values.addresses heap (heap.iterateObject address) := by
  have exposed : ∀ {items : List Value},
      Values.addresses items ⊆ (heap.get address).addresses →
      Gives (ε := Refusal) start held Values.addresses heap
        (.ok (items, heap)) := by
    intro items shown
    refine .ok fun confines => (confines.expose member).mono ?_
    exact List.append_subset.mpr
      ⟨List.Subset.trans shown (List.subset_append_left _ _),
        List.subset_append_right _ _⟩
  unfold Heap.iterateObject
  split
  · next items here => exact exposed (by rw [here]; exact List.Subset.refl _)
  · next entries here =>
      refine exposed ?_
      rw [here]
      exact Entries.addresses_keys entries
  · next members here =>
      exact exposed (by rw [here]; exact List.Subset.refl _)
  · next content here =>
      refine exposed ?_
      rw [addresses_byteValues]
      exact List.nil_subset _
  · exact gives_iterateView _
  · exact .error
  · next array here =>
      intro confines result after success
      have opened := confines.expose member
      rw [here] at opened
      have given := gives_iterateArray (List.subset_append_left _ held)
        opened result after success
      exact given.mono (by simp)
  · exact .error
  · exact .error

theorem gives_iterate {value : Value} (member : value.addresses ⊆ held) :
    Gives start held Values.addresses heap (heap.iterate value) := by
  rw [← Value.addresses_plain] at member
  unfold Heap.iterate
  split
  · refine .same ?_
    rw [Values.addresses_eq_nil]
    · exact List.nil_subset _
    · intro value isPoint
      obtain ⟨point, _, rfl⟩ := List.mem_map.mp isPoint
      rfl
  · refine .same ?_
    rw [addresses_byteValues]
    exact List.nil_subset _
  · next items isTuple =>
      rw [isTuple, Value.addresses_tuple] at member
      exact .same member
  · next members isFrozenset =>
      rw [isFrozenset, Value.addresses_frozenset] at member
      exact .same member
  · next address isObject =>
      rw [isObject, Value.addresses_object] at member
      exact gives_iterateObject (member List.mem_cons_self)
  · exact .error

theorem gives_iterateChecked {check : Value → Except Refusal Unit}
    {value : Value} (member : value.addresses ⊆ held) :
    Gives start held Values.addresses heap
      (heap.iterateChecked check value) := by
  unfold Heap.iterateChecked
  split
  · exact .bind fun _ _ => .error
  · refine .seq (gives_iterate member) fun items heap => ?_
    exact .bind fun _ _ => .same (List.subset_append_left _ _)

/-! ## Arrays of records -/

theorem addresses_elementValue (heap : Heap) (type : Dtype) (data : Bytes) :
    (heap.elementValue type data).1.addresses = [] := by
  unfold Heap.elementValue
  split
  · exact addresses_float heap _
  · exact addresses_complex heap _ _
  · next plain => exact Dtype.addresses_plainValue? plain
  · rfl

theorem objects_elementValue (heap : Heap) (type : Dtype) (data : Bytes) :
    (heap.elementValue type data).2.objects = heap.objects := by
  unfold Heap.elementValue
  split
  · exact objects_float heap _
  · exact objects_complex heap _ _
  · rfl
  · rfl

theorem gives_elementValues {array : NdArray}
    (member : array.content.addresses ⊆ held) :
    Gives (ε := Refusal) start held Values.addresses heap
      (.ok (heap.elementValues array)) := by
  unfold Heap.elementValues
  split
  · next values content =>
      rw [content] at member
      exact .same member
  · refine .foldl fun element _ values heap confines => ?_
    have made := confines.of_objects_eq
      (objects_elementValue heap array.type element)
    refine made.mono ?_
    simp [addresses_elementValue]

/-- An array that is lent is one in hand, or it holds bytes only. -/
theorem Confines.lentArray {value : Value} {array : NdArray}
    (confines : start.Confines held heap) (member : value.addresses ⊆ held)
    (lent : heap.lentArray? value = some array) :
    start.Confines (array.content.addresses ++ held) heap := by
  unfold lentArray? at lent
  dsimp only at lent
  split at lent
  · next address =>
      rw [Value.addresses_object] at member
      split at lent
      · cases lent
        exact confines
      · cases lent
        exact confines
      · next other here =>
          cases lent
          have exposed := confines.expose (member List.mem_cons_self)
          rw [here] at exposed
          exact exposed
      · cases lent
  · cases lent

theorem gives_spread {count : Nat} {value : Value}
    (member : value.addresses ⊆ held) :
    Gives start held Values.addresses heap (heap.spread count value) := by
  have everywhere : Values.addresses (List.replicate count value) ⊆ held := by
    intro address mentioned
    obtain ⟨other, isSame, mentioned⟩ := List.mem_flatMap.mp mentioned
    rw [List.eq_of_mem_replicate isSame] at mentioned
    exact member mentioned
  unfold Heap.spread
  split
  · next array lent =>
      split
      · intro confines result after success
        have opened := confines.lentArray member lent
        have given := gives_elementValues (List.subset_append_left _ held)
          opened result after success
        exact given.mono (by simp)
      · exact .error
  · split
    · next items =>
        rw [Value.addresses_tuple] at member
        exact .same member
    · split
      · next address _ items here =>
          rw [Value.addresses_object] at member
          refine .ok fun confines => ?_
          have exposed := confines.expose (member List.mem_cons_self)
          rw [here] at exposed
          exact exposed
      · exact .same everywhere
    · exact .same everywhere

theorem addresses_lend {type : Dtype} {value : Value} {array : NdArray}
    (lent : heap.lend type value = .ok array) :
    array.content.addresses = [] := by
  unfold lend at lent
  split at lent
  · exact NdArray.addresses_ofBuffer lent
  · cases lent

theorem gives_arrayOfRecord {record : Record}
    (member : record.addresses ⊆ held) :
    Gives start held (·.content.addresses) heap
      (heap.arrayOfRecord record) := by
  have field : ∀ (name : String) (missing : Value), missing.addresses = [] →
      ((record.field? name).getD missing).addresses ⊆ held := by
    intro name missing bare
    cases found : record.field? name with
    | none =>
        rw [Option.getD_none, bare]
        exact List.nil_subset _
    | some value =>
        have inFields := Entries.subset_of_find? found
        exact List.Subset.trans inFields
          (List.Subset.trans (List.subset_append_right _ _) member)
  unfold Heap.arrayOfRecord
  refine .seq (.mapError _ (gives_iterate (field _ _ rfl)))
    fun extents heap => ?_
  dsimp only
  refine .bind fun type _ => .bind fun firstFastest _ => ?_
  split
  · refine .bind fun count _ => ?_
    refine .seq (.mapError _ (gives_spread
      (List.Subset.trans (field "data" .none rfl)
        (List.subset_append_right _ _))))
      fun values heap => ?_
    refine .bind fun shape _ => .bind fun array reshaped => .same ?_
    have inLine := NdArray.addresses_reshape (mapError_eq_ok_iff.mp reshaped)
    exact List.Subset.trans inLine (List.subset_append_left _ _)
  · refine .bind fun data _ => .bind fun count _ => .bind fun length _ => ?_
    split
    · exact .error
    · refine .bind fun line lent => .bind fun shape _ => ?_
      refine .bind fun array reshaped => .same ?_
      have inLine := NdArray.addresses_reshape (mapError_eq_ok_iff.mp reshaped)
      rw [addresses_lend (mapError_eq_ok_iff.mp lent)] at inLine
      exact List.Subset.trans inLine (List.nil_subset _)

end Heap

end PickleGraph
