import PickleGraph.Construction.State
import PickleGraph.Proofs.Actions

/-!
# Objects of heaps

What a heap holds after an allocation or an update, and which values refer to
objects of which kind.
-/

namespace PickleGraph.Heap

/-! ## Parts -/

theorem ext_objects {first second : Heap}
    (marks : first.marks = second.marks)
    (objects : ∀ address : Nat,
      first.objects[address]? = second.objects[address]?) :
    first = second := by
  obtain ⟨firstObjects, firstMarks⟩ := first
  obtain ⟨secondObjects, secondMarks⟩ := second
  have same : firstObjects = secondObjects := Array.ext_getElem? objects
  cases marks
  cases same
  rfl

/-! ## Allocation and update -/

@[simp] theorem size_alloc (heap : Heap) (object : Object) :
    (heap.alloc object).2.objects.size = heap.objects.size + 1 := by
  simp [alloc]

theorem get_alloc (heap : Heap) (object : Object) (address : Address) :
    (heap.alloc object).2.get address =
      if address = heap.objects.size then object else heap.get address := by
  simp only [get, get?, alloc, Array.getElem?_push]
  split
  · rfl
  · rfl

theorem get_alloc_self (heap : Heap) (object : Object) :
    (heap.alloc object).2.get heap.objects.size = object := by
  rw [get_alloc, if_pos rfl]

@[simp] theorem size_set
    (heap : Heap) (address : Address) (object : Object) :
    (heap.set address object).objects.size = heap.objects.size := by
  simp [set]

theorem get_set_of_ne
    {heap : Heap} {address other : Address} (object : Object)
    (different : other ≠ address) :
    (heap.set address object).get other = heap.get other := by
  simp [get, get?, set, different.symm]

theorem get_set_self
    {heap : Heap} {address : Address} (object : Object)
    (bound : address < heap.objects.size) :
    (heap.set address object).get address = object := by
  simp [get, get?, set, bound]

/-- An update beyond the heap changes nothing. -/
theorem get_set
    (heap : Heap) (address other : Address) (object : Object) :
    (heap.set address object).get other =
      if other = address ∧ address < heap.objects.size then object
      else heap.get other := by
  by_cases same : other = address
  · subst same
    by_cases bound : other < heap.objects.size
    · rw [get_set_self object bound, if_pos ⟨rfl, bound⟩]
    · rw [if_neg fun both => bound both.2]
      simp [get, get?, set, bound]
  · rw [get_set_of_ne object same, if_neg fun both => same both.1]

theorem lt_size_of_get
    {heap : Heap} {address : Address} {object : Object}
    (here : heap.get address = object) (present : object ≠ .plain) :
    address < heap.objects.size := by
  rcases Nat.lt_or_ge address heap.objects.size with bound | beyond
  · exact bound
  · refine absurd ?_ present
    rw [← here]
    simp [get, get?, Array.getElem?_eq_none beyond]

theorem set_get_self {heap : Heap} {address : Address} {object : Object}
    (here : heap.get address = object)
    (present : object ≠ .plain) : heap.set address object = heap := by
  have bound := lt_size_of_get here present
  have isHere : heap.objects[address]? = some object := by
    rw [Array.getElem?_eq_getElem bound]
    unfold get get? at here
    rw [Array.getElem?_eq_getElem bound] at here
    exact congrArg some here
  refine ext_objects rfl fun place => ?_
  simp only [set, Array.getElem?_setIfInBounds]
  split
  · next same => exact (same ▸ isHere).symm
  · rfl

theorem set_set (heap : Heap) (address : Address) (object last : Object) :
    (heap.set address object).set address last = heap.set address last :=
  ext_objects rfl fun place => by
    simp only [set, Array.getElem?_setIfInBounds, Array.size_setIfInBounds]
    split <;> rfl

theorem set_alloc (heap : Heap) (object last : Object) :
    (heap.alloc object).2.set heap.objects.size last =
      (heap.alloc last).2 :=
  ext_objects rfl fun place => by
    simp only [set, alloc, Array.getElem?_setIfInBounds, Array.size_push,
      Array.getElem?_push, Nat.lt_succ_self, if_true]
    by_cases isNew : place = heap.objects.size
    · rw [if_pos isNew.symm, if_pos isNew]
    · rw [if_neg (Ne.symm isNew), if_neg isNew, if_neg isNew]

/-! ## Kinds of values -/

variable {heap : Heap} {value : Value}

theorem typeRef?_eq_some_iff {reference : TypeRef} :
    heap.typeRef? value = some reference ↔
      ∃ address, value = .object address ∧
        heap.get address = .typeRef reference := by
  unfold typeRef?
  split
  · next address =>
      split <;> simp_all
  · next noObject =>
      constructor
      · rintro ⟨⟩
      · rintro ⟨address, rfl, _⟩
        exact absurd rfl (noObject address)

theorem array?_eq_some_iff {array : NdArray} :
    heap.array? value = some array ↔
      ∃ address, value = .object address ∧
        heap.get address = .array array := by
  unfold array?
  split
  · next address =>
      split <;> simp_all
  · next noObject =>
      constructor
      · rintro ⟨⟩
      · rintro ⟨address, rfl, _⟩
        exact absurd rfl (noObject address)

end PickleGraph.Heap

/-!
## Extensions of heaps

Decoding plain data adds objects to a heap and fills the containers that are
still under construction. All other objects stay as they were.
-/

namespace PickleGraph.Heap

/-- A heap that has grown and may differ at certain addresses only. -/
structure Extends (changed : List Address) (before after : Heap) :
    Prop where
  size : before.objects.size ≤ after.objects.size
  same : ∀ address < before.objects.size, address ∉ changed →
    after.get address = before.get address

namespace Extends

variable {changed : List Address} {before middle after : Heap}

theorem refl (changed : List Address) (heap : Heap) :
    Extends changed heap heap :=
  ⟨Nat.le_refl _, fun _ _ _ => rfl⟩

/-- What changes later must be allowed to change or be new. -/
theorem trans {further : List Address}
    (first : Extends changed before middle)
    (second : Extends further middle after)
    (new : ∀ address ∈ further,
      address ∈ changed ∨ before.objects.size ≤ address) :
    Extends changed before after := by
  refine ⟨Nat.le_trans first.size second.size, fun address old kept => ?_⟩
  have keptLater : address ∉ further := by
    intro member
    rcases new address member with allowed | fresh
    · exact kept allowed
    · exact absurd old (Nat.not_lt.mpr fresh)
  rw [second.same address (Nat.lt_of_lt_of_le old first.size) keptLater,
    first.same address old kept]

theorem mono {wider : List Address}
    (weaker : ∀ address ∈ changed, address ∈ wider)
    (extends_ : Extends changed before after) :
    Extends wider before after :=
  ⟨extends_.size, fun address old kept =>
    extends_.same address old fun member => kept (weaker address member)⟩

theorem alloc (heap : Heap) (object : Object) :
    Extends [] heap (heap.alloc object).2 := by
  refine ⟨?_, fun address old _ => ?_⟩
  · rw [size_alloc]
    exact Nat.le_succ _
  · rw [get_alloc, if_neg (Nat.ne_of_lt old)]

theorem set (heap : Heap) (address : Address) (object : Object) :
    Extends [address] heap (heap.set address object) := by
  refine ⟨Nat.le_of_eq (size_set heap address object).symm,
    fun other _ kept => ?_⟩
  exact get_set_of_ne object fun same => kept (List.mem_singleton.mpr same)

theorem of_objects_eq (same : after.objects = before.objects) :
    Extends [] before after := by
  refine ⟨Nat.le_of_eq (congrArg Array.size same).symm, fun _ _ _ => ?_⟩
  simp only [get, get?, same]

end Extends

/-- Another heap holds the same objects from an address on. -/
def AgreesFrom (low : Address) (heap after : Heap) : Prop :=
  ∀ address < heap.objects.size, low ≤ address →
    after.get address = heap.get address

theorem AgreesFrom.get
    {low address : Address} {heap after : Heap} {object : Object}
    (agrees : heap.AgreesFrom low after) (here : heap.get address = object)
    (present : object ≠ .plain) (above : low ≤ address) :
    after.get address = object := by
  rw [agrees address (lt_size_of_get here present) above, here]

theorem AgreesFrom.refl (low : Address) (heap : Heap) :
    heap.AgreesFrom low heap :=
  fun _ _ _ => rfl

theorem AgreesFrom.alloc {low : Address} (heap : Heap) (object : Object) :
    heap.AgreesFrom low (heap.alloc object).2 :=
  fun address old _ => (Extends.alloc heap object).same address old
    List.not_mem_nil

theorem Extends.agreesFrom
    {changed : List Address} {low : Address} {heap after : Heap}
    (extends_ : Extends changed heap after)
    (below : ∀ address ∈ changed, address < low) :
    heap.AgreesFrom low after := by
  intro address old above
  refine extends_.same address old fun member => ?_
  exact absurd above (Nat.not_le.mpr (below address member))

/-! ## Filling a container -/

variable {heap middle after : Heap} {address : Address} {object : Object}

theorem Extends.get
    (extends_ : Extends [] heap middle) (here : heap.get address = object)
    (present : object ≠ .plain) : middle.get address = object := by
  rw [extends_.same address (lt_size_of_get here present) List.not_mem_nil,
    here]

theorem Extends.get_set
    (extends_ : Extends [] heap middle) (old : address < heap.objects.size) :
    (middle.set address object).get address = object :=
  get_set_self object (Nat.lt_of_lt_of_le old extends_.size)

theorem Extends.size_le_set (extends_ : Extends [] heap middle) :
    heap.objects.size ≤ (middle.set address object).objects.size := by
  rw [size_set]
  exact extends_.size

/-- Objects are added, and then one object is changed, for as long as it
takes. -/
theorem Extends.set_trans
    (extends_ : Extends [] heap middle)
    (further : Extends [address] (middle.set address object) after) :
    Extends [address] heap after := by
  have start : Extends [address] heap middle := extends_.mono (by simp)
  have filled := start.trans (Extends.set middle address object)
    fun _ member => .inl member
  exact filled.trans further fun _ member => .inl member

theorem AgreesFrom.of_set
    {low : Address} (below : address < low)
    (further : Extends [address] (middle.set address object) after) :
    middle.AgreesFrom low after := by
  have filled := (Extends.set middle address object).trans further
    fun _ member => .inl member
  exact filled.agreesFrom fun _ member =>
    List.mem_singleton.mp member ▸ below

/-! ## Arrays -/

/-- What is an array in the one heap is the same array in the other one. -/
def KeepsArrays (before after : Heap) : Prop :=
  ∀ value array, before.array? value = some array →
    after.array? value = some array

theorem Extends.keepsArrays {changed : List Address} {before after : Heap}
    (extends_ : Extends changed before after)
    (spared : ∀ address ∈ changed, ∀ array,
      before.get address ≠ .array array) :
    before.KeepsArrays after := by
  intro value array isArray
  obtain ⟨address, rfl, here⟩ := array?_eq_some_iff.mp isArray
  have old : address < before.objects.size := lt_size_of_get here (by simp)
  have kept : after.get address = before.get address :=
    extends_.same address old fun member => spared address member array here
  exact array?_eq_some_iff.mpr ⟨address, rfl, kept.trans here⟩

end PickleGraph.Heap
