import PickleGraph.Proofs.Heap.Object

/-!
# Confined heaps

A heap is confined to what it holds beyond an earlier one if the earlier objects
are as they were and the further ones mention each other only. Whoever holds
nothing but further objects in hand comes across no earlier one.

A value is hashable if the objects in it are, and these are hashed by identity.
Containers are not, so that filling one makes no difference to any hash.
-/

namespace PickleGraph

open Actions

/-! ## What values and objects mention -/

/-- The addresses that a value mentions, in order. -/
def Value.addresses : Value → List Address
  | .tuple items => ofAll items
  | .frozenset members => ofAll members
  | .object address => [address]
  | _ => []
where
  ofAll : List Value → List Address
    | [] => []
    | item :: items => addresses item ++ ofAll items

def Values.addresses (values : List Value) : List Address :=
  values.flatMap Value.addresses

def Entries.addresses (entries : List (Value × Value)) : List Address :=
  entries.flatMap fun entry => entry.1.addresses ++ entry.2.addresses

def ArrayContent.addresses : ArrayContent → List Address
  | .raw _ => []
  | .items values => Values.addresses values

def Record.addresses (record : Record) : List Address :=
  Values.addresses record.args ++ Entries.addresses record.fields

def Object.addresses : Object → List Address
  | .list items => Values.addresses items.toList
  | .dict _ entries => Entries.addresses entries
  | .set members => Values.addresses members
  | .view shown => [shown.source]
  | .record content => content.addresses
  | .array elements => elements.content.addresses
  | .bytearray _ | .typeRef _ | .plain => []

namespace Values

variable {values others : List Value}

@[simp] theorem addresses_nil : addresses [] = [] :=
  rfl

@[simp] theorem addresses_cons (value : Value) (rest : List Value) :
    addresses (value :: rest) = value.addresses ++ addresses rest :=
  rfl

@[simp] theorem addresses_append (values others : List Value) :
    addresses (values ++ others) = addresses values ++ addresses others :=
  List.flatMap_append

theorem addresses_mono (member : values ⊆ others) :
    addresses values ⊆ addresses others := by
  intro address mentioned
  obtain ⟨value, isValue, mentioned⟩ := List.mem_flatMap.mp mentioned
  exact List.mem_flatMap.mpr ⟨value, member isValue, mentioned⟩

theorem subset_of_mem {value : Value} (member : value ∈ values) :
    value.addresses ⊆ addresses values :=
  fun _ mentioned => List.mem_flatMap.mpr ⟨value, member, mentioned⟩

theorem addresses_eq_nil (bare : ∀ value ∈ values, value.addresses = []) :
    addresses values = [] :=
  List.flatMap_eq_nil_iff.mpr bare

end Values

namespace Value

theorem addresses_ofAll (items : List Value) :
    addresses.ofAll items = Values.addresses items := by
  induction items with
  | nil => rfl
  | cons item rest inductionHypothesis =>
      rw [addresses.ofAll, inductionHypothesis]
      rfl

@[simp] theorem addresses_tuple (items : List Value) :
    (tuple items).addresses = Values.addresses items := by
  rw [addresses, addresses_ofAll]

@[simp] theorem addresses_frozenset (members : List Value) :
    (frozenset members).addresses = Values.addresses members := by
  rw [addresses, addresses_ofAll]

@[simp] theorem addresses_object (address : Address) :
    (object address).addresses = [address] := by
  rw [addresses]

end Value

/-! ## Entries and members -/

namespace Entries

@[simp] theorem addresses_nil : addresses [] = [] :=
  rfl

@[simp] theorem addresses_cons (entry : Value × Value)
    (rest : List (Value × Value)) :
    addresses (entry :: rest) =
      entry.1.addresses ++ entry.2.addresses ++ addresses rest :=
  rfl

theorem addresses_keys (entries : List (Value × Value)) :
    Values.addresses (entries.map (·.1)) ⊆ addresses entries := by
  induction entries with
  | nil => exact List.nil_subset _
  | cons entry rest inductionHypothesis =>
      simp only [List.map_cons, Values.addresses_cons, addresses_cons]
      grind

theorem addresses_insert (key value : Value)
    (entries : List (Value × Value)) :
    addresses (insert key value entries) ⊆
      key.addresses ++ value.addresses ++ addresses entries := by
  induction entries with
  | nil => simp [insert]
  | cons entry rest inductionHypothesis =>
      obtain ⟨bound, old⟩ := entry
      unfold insert
      split
      · simp only [addresses_cons]
        grind
      · simp only [addresses_cons]
        grind

theorem addresses_merge (entries additions : List (Value × Value)) :
    addresses (merge entries additions) ⊆
      addresses entries ++ addresses additions := by
  unfold merge
  induction additions generalizing entries with
  | nil => simp
  | cons addition rest inductionHypothesis =>
      have inserted := addresses_insert addition.1 addition.2 entries
      have merged := inductionHypothesis
        (insert addition.1 addition.2 entries)
      simp only [List.foldl_cons, addresses_cons]
      grind

theorem addresses_mono {entries others : List (Value × Value)}
    (member : entries ⊆ others) : addresses entries ⊆ addresses others := by
  intro address mentioned
  obtain ⟨entry, isEntry, mentioned⟩ := List.mem_flatMap.mp mentioned
  exact List.mem_flatMap.mpr ⟨entry, member isEntry, mentioned⟩

/-- Entries that are merged into none mention what they did. -/
theorem addresses_merge_nil (additions : List (Value × Value)) :
    addresses (merge [] additions) ⊆ addresses additions :=
  addresses_merge [] additions

theorem subset_of_find? {key value : Value} {entries : List (Value × Value)}
    (found : find? key entries = some value) :
    value.addresses ⊆ addresses entries := by
  obtain ⟨entry, here, rfl⟩ := Option.map_eq_some_iff.mp found
  intro address mentioned
  exact List.mem_flatMap.mpr ⟨entry, List.mem_of_find?_eq_some here,
    List.mem_append_right _ mentioned⟩

end Entries

theorem Members.addresses_merge (members additions : List Value) :
    Values.addresses (merge members additions) ⊆
      Values.addresses members ++ Values.addresses additions := by
  unfold merge
  induction additions generalizing members with
  | nil => simp
  | cons addition rest inductionHypothesis =>
      have inserted : Values.addresses (insert addition members) ⊆
          Values.addresses members ++ addition.addresses := by
        unfold insert
        split
        · exact List.subset_append_left _ _
        · simp
      have merged := inductionHypothesis (insert addition members)
      simp only [List.foldl_cons, Values.addresses_cons]
      grind

theorem Members.addresses_merge_nil (additions : List Value) :
    Values.addresses (merge [] additions) ⊆ Values.addresses additions :=
  addresses_merge [] additions

/-! ## Confinement -/

/-- The heap holds the address beyond an earlier heap. -/
def Heap.HoldsBeyond (start heap : Heap) (address : Address) : Prop :=
  start.objects.size ≤ address ∧ address < heap.objects.size

/-- The heap has grown from `start` by objects that mention each other only, and
so do the values in hand. -/
structure Heap.Confines (start : Heap) (held : List Address) (heap : Heap) :
    Prop where
  grown : Extends [] start heap
  inner : ∀ address, start.objects.size ≤ address →
    ∀ mentioned ∈ (heap.get address).addresses,
      HoldsBeyond start heap mentioned
  held : ∀ address ∈ held, HoldsBeyond start heap address

namespace Heap

variable {start heap : Heap} {held : List Address}

theorem get_of_size_le {address : Address}
    (beyond : heap.objects.size ≤ address) : heap.get address = .plain := by
  unfold get get?
  rw [Array.getElem?_eq_none beyond]
  rfl

theorem HoldsBeyond.mono {after : Heap} {address : Address}
    (holds : HoldsBeyond start heap address)
    (size : heap.objects.size ≤ after.objects.size) :
    HoldsBeyond start after address :=
  ⟨holds.1, Nat.lt_of_lt_of_le holds.2 size⟩

namespace Confines

theorem refl (start : Heap) : start.Confines [] start where
  grown := .refl _ _
  inner address beyond mentioned member := by
    rw [get_of_size_le beyond] at member
    cases member
  held := nofun

theorem mono {fewer : List Address} (confines : start.Confines held heap)
    (member : fewer ⊆ held) : start.Confines fewer heap :=
  ⟨confines.grown, confines.inner,
    fun address mentioned => confines.held address (member mentioned)⟩

theorem add {further : List Address} (confines : start.Confines held heap)
    (holds : ∀ address ∈ further, HoldsBeyond start heap address) :
    start.Confines (further ++ held) heap := by
  refine ⟨confines.grown, confines.inner, fun address mentioned => ?_⟩
  rcases List.mem_append.mp mentioned with new | old
  · exact holds address new
  · exact confines.held address old

/-- What an object mentions can be taken in hand. -/
theorem expose {address : Address} (confines : start.Confines held heap)
    (member : address ∈ held) :
    start.Confines ((heap.get address).addresses ++ held) heap :=
  confines.add (confines.inner address (confines.held address member).1)

theorem alloc {object : Object} (confines : start.Confines held heap)
    (member : object.addresses ⊆ held) :
    start.Confines ((heap.alloc object).1.addresses ++ held)
      (heap.alloc object).2 := by
  have size : heap.objects.size ≤ (heap.alloc object).2.objects.size :=
    (Extends.alloc heap object).size
  refine ⟨confines.grown.trans (.alloc heap object) (by simp), ?_, ?_⟩
  · intro address beyond mentioned isMentioned
    rw [get_alloc] at isMentioned
    split at isMentioned
    · exact (confines.held mentioned (member isMentioned)).mono size
    · exact (confines.inner address beyond mentioned isMentioned).mono size
  · intro address mentioned
    rcases List.mem_append.mp mentioned with new | old
    · have isNew : address = heap.objects.size := by
        simpa [Heap.alloc] using new
      subst isNew
      exact ⟨confines.grown.size, by simp⟩
    · exact (confines.held address old).mono size

/-- An object in hand may change, if it still mentions others in hand only. -/
theorem set {address : Address} {object : Object}
    (confines : start.Confines held heap) (target : address ∈ held)
    (member : object.addresses ⊆ held) :
    start.Confines held (heap.set address object) := by
  have size := Nat.le_of_eq (size_set heap address object).symm
  have beyond := (confines.held address target).1
  refine ⟨confines.grown.trans (.set heap address object) ?_, ?_, ?_⟩
  · intro other isOther
    rw [List.mem_singleton.mp isOther]
    exact .inr beyond
  · intro other beyond mentioned isMentioned
    rw [get_set] at isMentioned
    split at isMentioned
    · exact (confines.held mentioned (member isMentioned)).mono size
    · exact (confines.inner other beyond mentioned isMentioned).mono size
  · intro other isHeld
    exact (confines.held other isHeld).mono size

theorem of_objects_eq {after : Heap} (confines : start.Confines held heap)
    (same : after.objects = heap.objects) : start.Confines held after := by
  have sameGet : ∀ address, after.get address = heap.get address := by
    intro address
    unfold get get?
    rw [same]
  refine ⟨confines.grown.trans (.of_objects_eq same) (by simp), ?_, ?_⟩
  · intro address beyond mentioned isMentioned
    rw [sameGet] at isMentioned
    exact (confines.inner address beyond mentioned isMentioned).mono
      (Nat.le_of_eq (congrArg Array.size same).symm)
  · intro address isHeld
    exact (confines.held address isHeld).mono
      (Nat.le_of_eq (congrArg Array.size same).symm)

/-- What is confined beyond a confined heap is confined. -/
theorem trans {after : Heap} {further : List Address}
    (confines : start.Confines held heap)
    (later : heap.Confines further after) :
    start.Confines (further ++ held) after := by
  have wider : ∀ {address}, HoldsBeyond heap after address →
      HoldsBeyond start after address :=
    fun holds => ⟨Nat.le_trans confines.grown.size holds.1, holds.2⟩
  refine ⟨confines.grown.trans later.grown (by simp), ?_, ?_⟩
  · intro address beyond mentioned isMentioned
    rcases Nat.lt_or_ge address heap.objects.size with old | new
    · rw [later.grown.same address old List.not_mem_nil] at isMentioned
      exact (confines.inner address beyond mentioned isMentioned).mono
        later.grown.size
    · exact wider (later.inner address new mentioned isMentioned)
  · intro address mentioned
    rcases List.mem_append.mp mentioned with new | old
    · exact wider (later.held address new)
    · exact (confines.held address old).mono later.grown.size

end Confines

end Heap

/-! ## Hashes of values -/

namespace Heap

variable {heap other : Heap} {address : Address}

mutual

/-- What is hashable stays so where the objects in it are hashable. -/
theorem hashable_of_objects {value : Value}
    (objects : ∀ address ∈ value.addresses,
      heap.checkHashable (.object address) = .ok () →
        other.checkHashable (.object address) = .ok ())
    (hashable : heap.checkHashable value = .ok ()) :
    other.checkHashable value = .ok () := by
  cases value with
  | tuple items => exact itemsHashable_of_objects objects hashable
  | object address => exact objects address List.mem_cons_self hashable
  | scalar type data =>
      rw [← hashable]
      cases type with
      | element kind => cases kind <;> rfl
      | _ => rfl
  | _ => rfl

theorem itemsHashable_of_objects {items : List Value}
    (objects : ∀ address ∈ Value.addresses.ofAll items,
      heap.checkHashable (.object address) = .ok () →
        other.checkHashable (.object address) = .ok ())
    (hashable : checkHashable.checkItems heap items = .ok ()) :
    checkHashable.checkItems other items = .ok () := by
  cases items with
  | nil => rfl
  | cons item rest =>
      rw [checkHashable.checkItems] at hashable ⊢
      obtain ⟨_, first, others⟩ := except_bind_eq_ok_iff.mp hashable
      refine except_bind_eq_ok_iff.mpr ⟨(), ?_, ?_⟩
      · exact hashable_of_objects
          (fun address member => objects address
            (List.mem_append_left _ member)) first
      · exact itemsHashable_of_objects
          (fun address member => objects address
            (List.mem_append_right _ member)) others

end

theorem hashable_object_of_get
    (same : other.get address = heap.get address)
    (hashable : heap.checkHashable (.object address) = .ok ()) :
    other.checkHashable (.object address) = .ok () := by
  unfold checkHashable at hashable ⊢
  rw [same]
  split at hashable <;> simp_all

/-- A container has no hash, so that filling it changes the hash of nothing. -/
theorem hashable_set {value : Value} {object : Object}
    (isContainer : heap.checkHashable (.object address) ≠ .ok ())
    (hashable : heap.checkHashable value = .ok ()) :
    (heap.set address object).checkHashable value = .ok () := by
  refine hashable_of_objects (fun place _ isHashable => ?_) hashable
  by_cases same : place = address
  · exact absurd (same ▸ isHashable) isContainer
  · exact hashable_object_of_get (get_set_of_ne object same) isHashable

theorem hashable_alloc {value : Value} (object : Object)
    (old : ∀ address ∈ value.addresses, address < heap.objects.size)
    (hashable : heap.checkHashable value = .ok ()) :
    (heap.alloc object).2.checkHashable value = .ok () := by
  refine hashable_of_objects (fun place member isHashable => ?_) hashable
  refine hashable_object_of_get ?_ isHashable
  rw [get_alloc, if_neg (Nat.ne_of_lt (old place member))]

end Heap

end PickleGraph
