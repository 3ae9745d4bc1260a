import PickleGraph.Proofs.Heap.Object
import PickleGraph.Proofs.Plain.Scalar
import PickleGraph.Proofs.Value.Key

/-!
# Plain data

Plain data are scalars and containers of plain data, up to any depth. A heap
shows a piece of plain data under a value if the value refers to objects of the
same kinds with the same contents in the same order.

Every piece of plain data has many encodings. A container is either made at once
from the values above a mark, or it is made empty and filled in batches of any
size. The choice is free at every place.
-/

namespace PickleGraph

inductive Plain
  | scalar (content : Scalar)
  | list (items : List Plain)
  | tuple (items : List Plain)
  | dict (entries : List (Plain × Plain))
  | set (members : List Plain)
  | frozenset (members : List Plain)

namespace Plain

/-! ## Keys -/

/-- The value of a piece of data that has a hash and holds no NaN. -/
def key? : Plain → Option Value
  | .scalar content => content.key?
  | .tuple items => (keys? items).map .tuple
  | .frozenset members => (keys? members).map .frozenset
  | _ => none
where
  keys? : List Plain → Option (List Value)
    | [] => some []
    | item :: items => do
        let key ← key? item
        let keys ← keys? items
        return key :: keys

theorem keys?_cons {item : Plain} {items : List Plain} {keys : List Value} :
    key?.keys? (item :: items) = some keys ↔
      ∃ key tail, item.key? = some key ∧ key?.keys? items = some tail ∧
        keys = key :: tail := by
  simp only [key?.keys?, Option.bind_eq_bind, Option.bind_eq_some_iff,
    Option.pure_def, Option.some.injEq]
  grind

theorem keys?_append {items others : List Plain} {keys : List Value} :
    key?.keys? (items ++ others) = some keys ↔
      ∃ first rest, key?.keys? items = some first ∧
        key?.keys? others = some rest ∧ keys = first ++ rest := by
  induction items generalizing keys with
  | nil => simp [key?.keys?]
  | cons item items inductionHypothesis =>
      rw [List.cons_append, keys?_cons]
      constructor
      · rintro ⟨key, tail, isKey, tailKeys, rfl⟩
        obtain ⟨first, rest, areKeys, restKeys, rfl⟩ :=
          inductionHypothesis.mp tailKeys
        exact ⟨key :: first, rest,
          keys?_cons.mpr ⟨key, first, isKey, areKeys, rfl⟩, restKeys, rfl⟩
      · rintro ⟨first, rest, areKeys, restKeys, rfl⟩
        obtain ⟨key, tail, isKey, tailKeys, rfl⟩ := keys?_cons.mp areKeys
        exact ⟨key, tail ++ rest, isKey,
          inductionHypothesis.mpr ⟨tail, rest, tailKeys, restKeys, rfl⟩, rfl⟩

/-- Data that are keys, pairwise apart. -/
def Distinct (items : List Plain) : Prop :=
  ∃ keys, key?.keys? items = some keys ∧ Value.Apart keys

/-- The keys of mappings and the members of sets are distinct keys, at every
depth. -/
inductive WellFormed : Plain → Prop
  | scalar {content : Scalar} : WellFormed (.scalar content)
  | list {items : List Plain} :
      (∀ item ∈ items, WellFormed item) → WellFormed (.list items)
  | tuple {items : List Plain} :
      (∀ item ∈ items, WellFormed item) → WellFormed (.tuple items)
  | dict {entries : List (Plain × Plain)} :
      (∀ entry ∈ entries, WellFormed entry.1) →
      (∀ entry ∈ entries, WellFormed entry.2) →
      Distinct (entries.map (·.1)) → WellFormed (.dict entries)
  | set {members : List Plain} :
      (∀ member ∈ members, WellFormed member) →
      Distinct members → WellFormed (.set members)
  | frozenset {members : List Plain} :
      (∀ member ∈ members, WellFormed member) →
      Distinct members → WellFormed (.frozenset members)

/-! ## Data in a heap -/

mutual

/-- Whether a value shows a piece of data, all of whose objects lie at or above
an address. -/
def ShownBy (heap : Heap) (low : Address) : Plain → Value → Prop
  | .scalar content, value => content.Is value
  | .list items, value =>
      ∃ address array, value = .object address ∧ low ≤ address ∧
        heap.get address = .list array ∧
        AllShownBy heap low items array.toList
  | .tuple items, value =>
      ∃ values, value = .tuple values ∧ AllShownBy heap low items values
  | .dict entries, value =>
      ∃ address pairs, value = .object address ∧ low ≤ address ∧
        heap.get address = .dict false pairs ∧
        EntriesShownBy heap low entries pairs
  | .set members, value =>
      ∃ address values, value = .object address ∧ low ≤ address ∧
        heap.get address = .set values ∧
        AllShownBy heap low members values
  | .frozenset members, value =>
      ∃ values, value = .frozenset values ∧
        AllShownBy heap low members values

/-- Values that show data one by one. -/
def AllShownBy (heap : Heap) (low : Address) :
    List Plain → List Value → Prop
  | [], values => values = []
  | item :: items, values =>
      ∃ value others, values = value :: others ∧
        ShownBy heap low item value ∧ AllShownBy heap low items others

/-- Pairs of values that show pairs of data one by one. -/
def EntriesShownBy (heap : Heap) (low : Address) :
    List (Plain × Plain) → List (Value × Value) → Prop
  | [], pairs => pairs = []
  | (key, item) :: entries, pairs =>
      ∃ keyValue value others, pairs = (keyValue, value) :: others ∧
        ShownBy heap low key keyValue ∧ ShownBy heap low item value ∧
        EntriesShownBy heap low entries others

end

variable {heap after : Heap} {low lower : Address}

mutual

/-- What a value shows stays the same as long as the objects do. -/
theorem ShownBy.extend {plain : Plain} {value : Value}
    (shown : ShownBy heap low plain value) (weaker : lower ≤ low)
    (agrees : heap.AgreesFrom low after) :
    ShownBy after lower plain value := by
  cases plain with
  | scalar content => exact shown
  | list items =>
      obtain ⟨address, array, rfl, above, here, items⟩ := shown
      exact ⟨address, array, rfl, Nat.le_trans weaker above,
        agrees.get here (by simp) above, items.extend weaker agrees⟩
  | tuple items =>
      obtain ⟨values, rfl, items⟩ := shown
      exact ⟨values, rfl, items.extend weaker agrees⟩
  | dict entries =>
      obtain ⟨address, pairs, rfl, above, here, entries⟩ := shown
      exact ⟨address, pairs, rfl, Nat.le_trans weaker above,
        agrees.get here (by simp) above, entries.extend weaker agrees⟩
  | set members =>
      obtain ⟨address, values, rfl, above, here, members⟩ := shown
      exact ⟨address, values, rfl, Nat.le_trans weaker above,
        agrees.get here (by simp) above, members.extend weaker agrees⟩
  | frozenset members =>
      obtain ⟨values, rfl, members⟩ := shown
      exact ⟨values, rfl, members.extend weaker agrees⟩

theorem AllShownBy.extend {items : List Plain} {values : List Value}
    (shown : AllShownBy heap low items values) (weaker : lower ≤ low)
    (agrees : heap.AgreesFrom low after) :
    AllShownBy after lower items values := by
  cases items with
  | nil => exact shown
  | cons item items =>
      obtain ⟨value, others, rfl, first, rest⟩ := shown
      exact ⟨value, others, rfl, first.extend weaker agrees,
        rest.extend weaker agrees⟩

theorem EntriesShownBy.extend
    {entries : List (Plain × Plain)} {pairs : List (Value × Value)}
    (shown : EntriesShownBy heap low entries pairs) (weaker : lower ≤ low)
    (agrees : heap.AgreesFrom low after) :
    EntriesShownBy after lower entries pairs := by
  cases entries with
  | nil => exact shown
  | cons entry entries =>
      obtain ⟨key, item⟩ := entry
      obtain ⟨keyValue, value, others, rfl, keyShown, itemShown, rest⟩ :=
        shown
      exact ⟨keyValue, value, others, rfl, keyShown.extend weaker agrees,
        itemShown.extend weaker agrees, rest.extend weaker agrees⟩

end

theorem AllShownBy.append
    {items others : List Plain} {values rest : List Value}
    (first : AllShownBy heap low items values)
    (second : AllShownBy heap low others rest) :
    AllShownBy heap low (items ++ others) (values ++ rest) := by
  induction items generalizing values with
  | nil =>
      cases first
      exact second
  | cons item items inductionHypothesis =>
      obtain ⟨value, tail, rfl, head, shown⟩ := first
      exact ⟨value, tail ++ rest, rfl, head, inductionHypothesis shown⟩

theorem EntriesShownBy.append
    {entries others : List (Plain × Plain)} {pairs rest : List (Value × Value)}
    (first : EntriesShownBy heap low entries pairs)
    (second : EntriesShownBy heap low others rest) :
    EntriesShownBy heap low (entries ++ others) (pairs ++ rest) := by
  induction entries generalizing pairs with
  | nil =>
      cases first
      exact second
  | cons entry entries inductionHypothesis =>
      obtain ⟨keyValue, value, tail, rfl, keyShown, itemShown, shown⟩ := first
      exact ⟨keyValue, value, tail ++ rest, rfl, keyShown, itemShown,
        inductionHypothesis shown⟩

/-! ## Keys in a heap -/

mutual

/-- The value of a key does not depend on the heap. -/
theorem ShownBy.eq_of_key? {plain : Plain} {value key : Value}
    (shown : ShownBy heap low plain value)
    (isKey : plain.key? = some key) : value = key := by
  cases plain with
  | scalar content => exact Scalar.Is.eq_of_key? shown isKey
  | tuple items =>
      obtain ⟨values, rfl, items⟩ := shown
      obtain ⟨keys, areKeys, rfl⟩ := Option.map_eq_some_iff.mp isKey
      rw [items.eq_of_keys? areKeys]
  | frozenset members =>
      obtain ⟨values, rfl, members⟩ := shown
      obtain ⟨keys, areKeys, rfl⟩ := Option.map_eq_some_iff.mp isKey
      rw [members.eq_of_keys? areKeys]
  | list items => cases isKey
  | dict entries => cases isKey
  | set members => cases isKey

theorem AllShownBy.eq_of_keys? {items : List Plain}
    {values keys : List Value} (shown : AllShownBy heap low items values)
    (areKeys : key?.keys? items = some keys) : values = keys := by
  cases items with
  | nil =>
      cases areKeys
      exact shown
  | cons item items =>
      obtain ⟨value, others, rfl, first, rest⟩ := shown
      obtain ⟨key, tail, isKey, restKeys, rfl⟩ := keys?_cons.mp areKeys
      rw [first.eq_of_key? isKey, rest.eq_of_keys? restKeys]

end

mutual

theorem checkHashable_key (heap : Heap) {plain : Plain} {key : Value}
    (isKey : plain.key? = some key) :
    heap.checkHashable key = .ok () := by
  cases plain with
  | scalar content => exact Scalar.checkHashable_key heap isKey
  | tuple items =>
      obtain ⟨keys, areKeys, rfl⟩ := Option.map_eq_some_iff.mp isKey
      exact checkItems_keys heap areKeys
  | frozenset members =>
      obtain ⟨keys, areKeys, rfl⟩ := Option.map_eq_some_iff.mp isKey
      rfl
  | list items => cases isKey
  | dict entries => cases isKey
  | set members => cases isKey

theorem checkItems_keys (heap : Heap) {items : List Plain}
    {keys : List Value} (areKeys : key?.keys? items = some keys) :
    Heap.checkHashable.checkItems heap keys = .ok () := by
  cases items with
  | nil =>
      cases areKeys
      rfl
  | cons item items =>
      obtain ⟨key, tail, isKey, restKeys, rfl⟩ := keys?_cons.mp areKeys
      rw [Heap.checkHashable.checkItems, checkHashable_key heap isKey]
      exact checkItems_keys heap restKeys

end

theorem checkHashable_of_mem_keys (heap : Heap) {items : List Plain}
    {keys : List Value} (areKeys : key?.keys? items = some keys) :
    ∀ key ∈ keys, heap.checkHashable key = .ok () := by
  induction items generalizing keys with
  | nil =>
      cases areKeys
      simp
  | cons item items inductionHypothesis =>
      obtain ⟨key, tail, isKey, restKeys, rfl⟩ := keys?_cons.mp areKeys
      intro other member
      rcases List.mem_cons.mp member with rfl | member
      · exact checkHashable_key heap isKey
      · exact inductionHypothesis restKeys other member

end Plain

/-! ## Encodings -/

/-- What a stretch of code stands for: one value, values in a row, or what is
added to a list, to a mapping or to a set. -/
inductive Part
  | value (plain : Plain)
  | values (items : List Plain)
  | items (items : List Plain)
  | entries (entries : List (Plain × Plain))
  | members (members : List Plain)

namespace Plain

open Execution

/-- Keys and values in turn. -/
def alternating (entries : List (Plain × Plain)) : List Plain :=
  entries.flatMap fun (key, item) => [key, item]

inductive Encodes : Part → Bytes → Prop
  | scalar {content : Scalar} {code : Bytes} :
      content.Code code → Encodes (.value (.scalar content)) code

  | markedList {items : List Plain} {code : Bytes} :
      Encodes (.values items) code →
      Encodes (.value (.list items)) (marked code .list)
  | emptyList {items : List Plain} {code : Bytes} :
      Encodes (.items items) code →
      Encodes (.value (.list items)) (Opcode.emptyList.code :: code)
  | markedTuple {items : List Plain} {code : Bytes} :
      Encodes (.values items) code →
      Encodes (.value (.tuple items)) (marked code .tuple)
  | emptyTuple : Encodes (.value (.tuple [])) [Opcode.emptyTuple.code]
  | sizedTuple {items : List Plain} {code : Bytes} {opcode : Opcode} :
      tupleSize? opcode = some items.length →
      Encodes (.values items) code →
      Encodes (.value (.tuple items)) (code ++ [opcode.code])
  | markedDict {entries : List (Plain × Plain)} {code : Bytes} :
      Encodes (.values (alternating entries)) code →
      Encodes (.value (.dict entries)) (marked code .dict)
  | emptyDict {entries : List (Plain × Plain)} {code : Bytes} :
      Encodes (.entries entries) code →
      Encodes (.value (.dict entries)) (Opcode.emptyDict.code :: code)
  | emptySet {members : List Plain} {code : Bytes} :
      Encodes (.members members) code →
      Encodes (.value (.set members)) (Opcode.emptySet.code :: code)
  | frozenset {members : List Plain} {code : Bytes} :
      Encodes (.values members) code →
      Encodes (.value (.frozenset members)) (marked code .frozenSet)
  | noValue : Encodes (.values []) []
  | nextValue {item : Plain} {items : List Plain} {code more : Bytes} :
      Encodes (.value item) code → Encodes (.values items) more →
      Encodes (.values (item :: items)) (code ++ more)
  | noItem : Encodes (.items []) []
  | append {item : Plain} {items : List Plain} {code more : Bytes} :
      Encodes (.value item) code → Encodes (.items items) more →
      Encodes (.items (item :: items)) (code ++ Opcode.append.code :: more)
  | appends {batch items : List Plain} {code more : Bytes} :
      Encodes (.values batch) code → Encodes (.items items) more →
      Encodes (.items (batch ++ items)) (marked code .appends ++ more)
  | noEntry : Encodes (.entries []) []
  | setItem {key item : Plain} {entries : List (Plain × Plain)}
      {keyCode code more : Bytes} :
      Encodes (.value key) keyCode → Encodes (.value item) code →
      Encodes (.entries entries) more →
      Encodes (.entries ((key, item) :: entries))
        (keyCode ++ code ++ Opcode.setItem.code :: more)
  | setItems {batch entries : List (Plain × Plain)} {code more : Bytes} :
      Encodes (.values (alternating batch)) code →
      Encodes (.entries entries) more →
      Encodes (.entries (batch ++ entries)) (marked code .setItems ++ more)
  | noMember : Encodes (.members []) []
  | addItems {batch members : List Plain} {code more : Bytes} :
      Encodes (.values batch) code → Encodes (.members members) more →
      Encodes (.members (batch ++ members)) (marked code .addItems ++ more)

end Plain

end PickleGraph
