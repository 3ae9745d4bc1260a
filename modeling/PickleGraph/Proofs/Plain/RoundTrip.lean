import PickleGraph.Proofs.Plain.Basic

/-!
# Decoding undoes encoding

Every encoding of plain data is decoded to a value that shows the data, with the
same kinds, contents and order at every depth. The code of a part leads from any
contents of a machine to the same contents with the part added, and touches no
object but the container that it fills.
-/

namespace PickleGraph

open Execution Decoding

namespace Plain

variable (options : Options)

/-! ## What the code of a part does -/

def YieldsValue (plain : Plain) (code : Bytes) : Prop :=
  ∀ (stack : List Value) (marks : List (List Value))
    (memo : List (Nat × Value)) (heap : Heap),
    ∃ value after,
      Executes options code ⟨stack, marks, memo, heap⟩
          ⟨value :: stack, marks, memo, after⟩ ∧
        heap.Extends [] after ∧
        ShownBy after heap.objects.size plain value

def YieldsValues (items : List Plain) (code : Bytes) : Prop :=
  ∀ (stack : List Value) (marks : List (List Value))
    (memo : List (Nat × Value)) (heap : Heap),
    ∃ values after,
      Executes options code ⟨stack, marks, memo, heap⟩
          ⟨values.reverse ++ stack, marks, memo, after⟩ ∧
        heap.Extends [] after ∧
        AllShownBy after heap.objects.size items values

def YieldsItems (items : List Plain) (code : Bytes) : Prop :=
  ∀ (stack : List Value) (marks : List (List Value))
    (memo : List (Nat × Value)) (heap : Heap) (address : Address)
    (present : Array Value),
    heap.get address = .list present →
    ∃ values after,
      Executes options code ⟨.object address :: stack, marks, memo, heap⟩
          ⟨.object address :: stack, marks, memo, after⟩ ∧
        heap.Extends [address] after ∧
        after.get address = .list (present ++ values.toArray) ∧
        AllShownBy after heap.objects.size items values

def YieldsEntries (entries : List (Plain × Plain)) (code : Bytes) : Prop :=
  ∀ (stack : List Value) (marks : List (List Value))
    (memo : List (Nat × Value)) (heap : Heap) (address : Address)
    (present : List (Value × Value)) (keys : List Value),
    heap.get address = .dict false present →
    key?.keys? (entries.map (·.1)) = some keys →
    Value.Apart (present.map (·.1) ++ keys) →
    ∃ pairs after,
      Executes options code ⟨.object address :: stack, marks, memo, heap⟩
          ⟨.object address :: stack, marks, memo, after⟩ ∧
        heap.Extends [address] after ∧
        after.get address = .dict false (present ++ pairs) ∧
        EntriesShownBy after heap.objects.size entries pairs

def YieldsMembers (members : List Plain) (code : Bytes) : Prop :=
  ∀ (stack : List Value) (marks : List (List Value))
    (memo : List (Nat × Value)) (heap : Heap) (address : Address)
    (present keys : List Value),
    heap.get address = .set present →
    key?.keys? members = some keys →
    Value.Apart (present ++ keys) →
    ∃ values after,
      Executes options code ⟨.object address :: stack, marks, memo, heap⟩
          ⟨.object address :: stack, marks, memo, after⟩ ∧
        heap.Extends [address] after ∧
        after.get address = .set (present ++ values) ∧
        AllShownBy after heap.objects.size members values

def Yields : Part → Bytes → Prop
  | .value plain, code => YieldsValue options plain code
  | .values items, code => YieldsValues options items code
  | .items items, code => YieldsItems options items code
  | .entries entries, code => YieldsEntries options entries code
  | .members members, code => YieldsMembers options members code

variable {options}

/-! ## Lists -/

theorem yields_append {item : Plain} {items : List Plain}
    {code more : Bytes} (first : YieldsValue options item code)
    (rest : YieldsItems options items more) :
    YieldsItems options (item :: items)
      (code ++ Opcode.append.code :: more) := by
  intro stack marks memo heap address present here
  have old := Heap.lt_size_of_get here (by simp)
  obtain ⟨value, middle, run, extended, shown⟩ :=
    first (.object address :: stack) marks memo heap
  have still := extended.get here (by simp)
  obtain ⟨values, after, further, filled, result, others⟩ :=
    rest stack marks memo _ address (present ++ [value].toArray)
      (extended.get_set old)
  refine ⟨value :: values, after, ?_, extended.set_trans filled, ?_, ?_⟩
  · exact run.append (.append (.bare .append rfl (effect_append still))
      further)
  · rw [result, append_toArray_append]
    rfl
  · refine ⟨value, values, rfl, ?_, ?_⟩
    · exact shown.extend (Nat.le_refl _) (.of_set old filled)
    · exact others.extend extended.size_le_set (.refl _ after)

theorem yields_appends {batch items : List Plain}
    {code more : Bytes} (first : YieldsValues options batch code)
    (rest : YieldsItems options items more) :
    YieldsItems options (batch ++ items) (marked code .appends ++ more) := by
  intro stack marks memo heap address present here
  have old := Heap.lt_size_of_get here (by simp)
  obtain ⟨values, middle, run, extended, shown⟩ :=
    first [] ((.object address :: stack) :: marks) memo heap
  have still := extended.get here (by simp)
  obtain ⟨others, after, further, filled, result, othersShown⟩ :=
    rest stack marks memo _ address (present ++ values.toArray)
      (extended.get_set old)
  refine ⟨values ++ others, after, ?_, extended.set_trans filled, ?_, ?_⟩
  · exact (executes_marked run rfl (effect_appends still)).append further
  · rw [result, append_toArray_append]
  · refine .append ?_ ?_
    · exact shown.extend (Nat.le_refl _) (.of_set old filled)
    · exact othersShown.extend extended.size_le_set (.refl _ after)

theorem yields_markedList {items : List Plain} {code : Bytes}
    (inner : YieldsValues options items code) :
    YieldsValue options (.list items) (marked code .list) := by
  intro stack marks memo heap
  obtain ⟨values, middle, run, extended, shown⟩ :=
    inner [] (stack :: marks) memo heap
  refine ⟨_, _, executes_marked run rfl (effect_list values),
    extended.trans (.alloc middle _) (by simp), ?_⟩
  refine ⟨_, _, rfl, extended.size, Heap.get_alloc_self middle _, ?_⟩
  exact shown.extend (Nat.le_refl _) (.alloc middle _)

theorem yields_emptyList {items : List Plain} {code : Bytes}
    (inner : YieldsItems options items code) :
    YieldsValue options (.list items) (Opcode.emptyList.code :: code) := by
  intro stack marks memo heap
  obtain ⟨values, after, run, filled, result, shown⟩ :=
    inner stack marks memo (heap.alloc (.list #[])).2 heap.objects.size #[]
      (Heap.get_alloc_self heap _)
  refine ⟨_, after,
    (Executes.bare .emptyList rfl (effect_pushObject _)).append run,
    (Heap.Extends.alloc heap _).trans filled (by simp), ?_⟩
  refine ⟨_, _, rfl, Nat.le_refl _, result, ?_⟩
  rw [Array.empty_append, List.toList_toArray]
  exact shown.extend (Heap.Extends.alloc heap _).size (.refl _ after)

/-! ## Tuples -/

theorem yields_markedTuple {items : List Plain} {code : Bytes}
    (inner : YieldsValues options items code) :
    YieldsValue options (.tuple items) (marked code .tuple) := by
  intro stack marks memo heap
  obtain ⟨values, middle, run, extended, shown⟩ :=
    inner [] (stack :: marks) memo heap
  exact ⟨_, _, executes_marked run rfl (effect_tuple values), extended,
    values, rfl, shown⟩

theorem yields_emptyTuple :
    YieldsValue options (.tuple []) [Opcode.emptyTuple.code] :=
  fun _ _ _ heap => ⟨_, heap, .bare .emptyTuple rfl (effect_push _),
    .refl _ heap, [], rfl, rfl⟩

theorem length_of_allShownBy {heap : Heap} {low : Address}
    {items : List Plain} {values : List Value}
    (shown : AllShownBy heap low items values) :
    values.length = items.length := by
  induction items generalizing values with
  | nil =>
      cases shown
      rfl
  | cons item items inductionHypothesis =>
      obtain ⟨value, others, rfl, _, rest⟩ := shown
      rw [List.length_cons, List.length_cons, inductionHypothesis rest]

theorem yields_sizedTuple {items : List Plain} {code : Bytes}
    {opcode : Opcode} (isSize : tupleSize? opcode = some items.length)
    (inner : YieldsValues options items code) :
    YieldsValue options (.tuple items) (code ++ [opcode.code]) := by
  intro stack marks memo heap
  obtain ⟨values, middle, run, extended, shown⟩ :=
    inner stack marks memo heap
  exact ⟨_, _, run.append (.bare opcode (ofOpcode_of_tupleSize? isSize)
    (effect_tupleOf (length_of_allShownBy shown))), extended, values, rfl,
    shown⟩

/-! ## Mappings -/

theorem pairUp?_alternating {heap : Heap} {low : Address}
    {entries : List (Plain × Plain)} {values : List Value}
    (shown : AllShownBy heap low (alternating entries) values) :
    ∃ pairs, pairUp? values = some pairs ∧
      EntriesShownBy heap low entries pairs := by
  induction entries generalizing values with
  | nil =>
      cases shown
      exact ⟨[], rfl, rfl⟩
  | cons entry entries inductionHypothesis =>
      obtain ⟨key, item⟩ := entry
      obtain ⟨keyValue, _, rfl, keyShown, shown⟩ := shown
      obtain ⟨value, others, rfl, itemShown, shown⟩ := shown
      obtain ⟨pairs, paired, rest⟩ := inductionHypothesis shown
      refine ⟨(keyValue, value) :: pairs, ?_, _, _, _, rfl, keyShown,
        itemShown, rest⟩
      rw [pairUp?, paired]
      rfl

theorem keysShown {heap : Heap} {low : Address}
    {entries : List (Plain × Plain)} {pairs : List (Value × Value)}
    (shown : EntriesShownBy heap low entries pairs) :
    AllShownBy heap low (entries.map (·.1)) (pairs.map (·.1)) := by
  induction entries generalizing pairs with
  | nil =>
      cases shown
      rfl
  | cons entry entries inductionHypothesis =>
      obtain ⟨keyValue, value, others, rfl, keyShown, _, rest⟩ := shown
      exact ⟨_, _, rfl, keyShown, inductionHypothesis rest⟩

/-- The keys of shown entries are the keys of the data. -/
theorem keys_eq {heap : Heap} {low : Address}
    {entries : List (Plain × Plain)} {pairs : List (Value × Value)}
    {keys : List Value} (shown : EntriesShownBy heap low entries pairs)
    (areKeys : key?.keys? (entries.map (·.1)) = some keys) :
    pairs.map (·.1) = keys :=
  (keysShown shown).eq_of_keys? areKeys

theorem checkHashable_of_mem_pairs (heap : Heap) {other : Heap}
    {low : Address}
    {entries : List (Plain × Plain)} {pairs : List (Value × Value)}
    {keys : List Value} (shown : EntriesShownBy other low entries pairs)
    (areKeys : key?.keys? (entries.map (·.1)) = some keys) :
    ∀ pair ∈ pairs, heap.checkHashable pair.1 = .ok () := by
  intro pair member
  refine checkHashable_of_mem_keys heap areKeys _ ?_
  rw [← keys_eq shown areKeys]
  exact List.mem_map_of_mem member

theorem yields_setItem {key item : Plain} {entries : List (Plain × Plain)}
    {keyCode code more : Bytes} (keyPart : YieldsValue options key keyCode)
    (itemPart : YieldsValue options item code)
    (rest : YieldsEntries options entries more) :
    YieldsEntries options ((key, item) :: entries)
      (keyCode ++ code ++ Opcode.setItem.code :: more) := by
  intro stack marks memo heap address present keys here areKeys apart
  obtain ⟨key, tail, isKey, tailKeys, rfl⟩ := keys?_cons.mp areKeys
  have old := Heap.lt_size_of_get here (by simp)
  obtain ⟨keyValue, first, keyRun, keyExtended, keyShown⟩ :=
    keyPart (.object address :: stack) marks memo heap
  obtain ⟨value, middle, run, itemExtended, shown⟩ :=
    itemPart (keyValue :: .object address :: stack) marks memo first
  obtain rfl := keyShown.eq_of_key? isKey
  have extended := keyExtended.trans itemExtended (by simp)
  have still := extended.get here (by simp)
  have regrouped : present.map (·.1) ++ keyValue :: tail =
      (present ++ [(keyValue, value)]).map (·.1) ++ tail := by
    simp
  rw [regrouped] at apart
  have merged := Entries.merge_of_apart apart.of_append
  have set : Effect options .setItem
      ⟨value :: keyValue :: .object address :: stack, marks, memo, middle⟩ _ :=
    effect_setItem still (checkHashable_key middle isKey)
      (Entries.reach_of_apart apart.of_append)
  rw [merged] at set
  obtain ⟨pairs, after, further, filled, result, others⟩ :=
    rest stack marks memo _ address (present ++ [(keyValue, value)]) tail
      (extended.get_set old) tailKeys apart
  refine ⟨(keyValue, value) :: pairs, after, ?_, extended.set_trans filled,
    ?_, ?_⟩
  · exact (keyRun.append run).append (.append (.bare .setItem rfl set)
      further)
  · rw [result, List.append_assoc]
    rfl
  · refine ⟨keyValue, value, pairs, rfl, ?_, ?_, ?_⟩
    · refine (keyShown.extend (Nat.le_refl _) ?_).extend (Nat.le_refl _)
        (.of_set old filled)
      exact itemExtended.agreesFrom (by simp)
    · exact shown.extend keyExtended.size
        (.of_set (Nat.lt_of_lt_of_le old keyExtended.size) filled)
    · exact others.extend extended.size_le_set (.refl _ after)

theorem yields_setItems {batch entries : List (Plain × Plain)}
    {code more : Bytes}
    (first : YieldsValues options (alternating batch) code)
    (rest : YieldsEntries options entries more) :
    YieldsEntries options (batch ++ entries)
      (marked code .setItems ++ more) := by
  intro stack marks memo heap address present keys here areKeys apart
  rw [List.map_append] at areKeys
  obtain ⟨batchKeys, tail, areBatchKeys, tailKeys, rfl⟩ :=
    keys?_append.mp areKeys
  have old := Heap.lt_size_of_get here (by simp)
  obtain ⟨values, middle, run, extended, shown⟩ :=
    first [] ((.object address :: stack) :: marks) memo heap
  obtain ⟨batchPairs, paired, shown⟩ := pairUp?_alternating shown
  have still := extended.get here (by simp)
  have regrouped : present.map (·.1) ++ (batchKeys ++ tail) =
      (present ++ batchPairs).map (·.1) ++ tail := by
    rw [List.map_append, keys_eq shown areBatchKeys, List.append_assoc]
  rw [regrouped] at apart
  have merged := Entries.merge_of_apart apart.of_append
  have set : Effect options .setItems
      ⟨values.reverse, (.object address :: stack) :: marks, memo, middle⟩ _ :=
    effect_setItems still paired
      (checkHashable_of_mem_pairs middle shown areBatchKeys)
      (Entries.reach_of_apart apart.of_append)
  rw [merged] at set
  obtain ⟨pairs, after, further, filled, result, others⟩ :=
    rest stack marks memo _ address (present ++ batchPairs) tail
      (extended.get_set old) tailKeys apart
  refine ⟨batchPairs ++ pairs, after, ?_, extended.set_trans filled, ?_, ?_⟩
  · exact (executes_marked run rfl set).append further
  · rw [result, List.append_assoc]
  · refine .append ?_ ?_
    · exact shown.extend (Nat.le_refl _) (.of_set old filled)
    · exact others.extend extended.size_le_set (.refl _ after)

theorem yields_markedDict {entries : List (Plain × Plain)} {code : Bytes}
    (distinct : Distinct (entries.map (·.1)))
    (inner : YieldsValues options (alternating entries) code) :
    YieldsValue options (.dict entries) (marked code .dict) := by
  intro stack marks memo heap
  obtain ⟨keys, areKeys, apart⟩ := distinct
  obtain ⟨values, middle, run, extended, shown⟩ :=
    inner [] (stack :: marks) memo heap
  obtain ⟨pairs, paired, shown⟩ := pairUp?_alternating shown
  have apartPairs :
      Value.Apart (([] ++ pairs : List (Value × Value)).map (·.1)) := by
    rw [List.nil_append, keys_eq shown areKeys]
    exact apart
  have merged : Entries.merge [] pairs = pairs :=
    Entries.merge_of_apart apartPairs
  have made : Effect options .dict
      ⟨values.reverse, stack :: marks, memo, middle⟩ _ :=
    effect_dict paired (checkHashable_of_mem_pairs middle shown areKeys)
      (Entries.reach_of_apart apartPairs)
  rw [merged] at made
  refine ⟨_, _, executes_marked run rfl made,
    extended.trans (.alloc middle _) (by simp), ?_⟩
  refine ⟨_, _, rfl, extended.size, Heap.get_alloc_self middle _, ?_⟩
  exact shown.extend (Nat.le_refl _) (.alloc middle _)

theorem yields_emptyDict {entries : List (Plain × Plain)} {code : Bytes}
    (distinct : Distinct (entries.map (·.1)))
    (inner : YieldsEntries options entries code) :
    YieldsValue options (.dict entries) (Opcode.emptyDict.code :: code) := by
  intro stack marks memo heap
  obtain ⟨keys, areKeys, apart⟩ := distinct
  obtain ⟨pairs, after, run, filled, result, shown⟩ :=
    inner stack marks memo (heap.alloc (.dict false [])).2 heap.objects.size
      [] keys (Heap.get_alloc_self heap _) areKeys apart
  refine ⟨_, after,
    (Executes.bare .emptyDict rfl (effect_pushObject _)).append run,
    (Heap.Extends.alloc heap _).trans filled (by simp), ?_⟩
  refine ⟨_, _, rfl, Nat.le_refl _, result, ?_⟩
  exact shown.extend (Heap.Extends.alloc heap _).size (.refl _ after)

/-! ## Sets -/

theorem yields_addItems {batch members : List Plain}
    {code more : Bytes} (first : YieldsValues options batch code)
    (rest : YieldsMembers options members more) :
    YieldsMembers options (batch ++ members)
      (marked code .addItems ++ more) := by
  intro stack marks memo heap address present keys here areKeys apart
  obtain ⟨batchKeys, tail, areBatchKeys, tailKeys, rfl⟩ :=
    keys?_append.mp areKeys
  have old := Heap.lt_size_of_get here (by simp)
  obtain ⟨values, middle, run, extended, shown⟩ :=
    first [] ((.object address :: stack) :: marks) memo heap
  obtain rfl := shown.eq_of_keys? areBatchKeys
  have still := extended.get here (by simp)
  rw [← List.append_assoc] at apart
  have added : Effect options .addItems
      ⟨values.reverse, (.object address :: stack) :: marks, memo, middle⟩ _ :=
    effect_addItems still (checkHashable_of_mem_keys middle areBatchKeys)
      (Members.reach_of_apart apart.of_append)
  rw [Members.merge_of_apart apart.of_append] at added
  obtain ⟨others, after, further, filled, result, othersShown⟩ :=
    rest stack marks memo _ address (present ++ values) tail
      (extended.get_set old) tailKeys apart
  refine ⟨values ++ others, after, ?_, extended.set_trans filled, ?_, ?_⟩
  · exact (executes_marked run rfl added).append further
  · rw [result, List.append_assoc]
  · refine .append ?_ ?_
    · exact shown.extend (Nat.le_refl _) (.of_set old filled)
    · exact othersShown.extend extended.size_le_set (.refl _ after)

theorem yields_emptySet {members : List Plain} {code : Bytes}
    (distinct : Distinct members)
    (inner : YieldsMembers options members code) :
    YieldsValue options (.set members) (Opcode.emptySet.code :: code) := by
  intro stack marks memo heap
  obtain ⟨keys, areKeys, apart⟩ := distinct
  obtain ⟨values, after, run, filled, result, shown⟩ :=
    inner stack marks memo (heap.alloc (.set [])).2 heap.objects.size [] keys
      (Heap.get_alloc_self heap _) areKeys apart
  refine ⟨_, after,
    (Executes.bare .emptySet rfl (effect_pushObject _)).append run,
    (Heap.Extends.alloc heap _).trans filled (by simp), ?_⟩
  refine ⟨_, _, rfl, Nat.le_refl _, result, ?_⟩
  exact shown.extend (Heap.Extends.alloc heap _).size (.refl _ after)

theorem yields_frozenset {members : List Plain} {code : Bytes}
    (distinct : Distinct members)
    (inner : YieldsValues options members code) :
    YieldsValue options (.frozenset members) (marked code .frozenSet) := by
  intro stack marks memo heap
  obtain ⟨keys, areKeys, apart⟩ := distinct
  obtain ⟨values, middle, run, extended, shown⟩ :=
    inner [] (stack :: marks) memo heap
  obtain rfl := shown.eq_of_keys? areKeys
  have made : Effect options .frozenSet
      ⟨values.reverse, stack :: marks, memo, middle⟩ _ :=
    effect_frozenSet (checkHashable_of_mem_keys middle areKeys)
      (Members.reach_of_apart apart)
  have merged : Members.merge [] values = values :=
    Members.merge_of_apart apart
  rw [merged] at made
  exact ⟨_, _, executes_marked run rfl made, extended, values, rfl, shown⟩

/-! ## All parts -/

theorem yields_scalar {content : Scalar} {code : Bytes}
    (writes : content.Code code) :
    YieldsValue options (.scalar content) code := by
  intro stack marks memo heap
  obtain ⟨value, after, same, noObject, _, run⟩ := writes.executes
  exact ⟨value, after, run, .of_objects_eq noObject, same⟩

theorem yields_noValue : YieldsValues options [] [] :=
  fun _ _ _ heap => ⟨[], heap, .nil _, .refl _ heap, rfl⟩

theorem yields_nextValue {item : Plain} {items : List Plain}
    {code more : Bytes} (first : YieldsValue options item code)
    (rest : YieldsValues options items more) :
    YieldsValues options (item :: items) (code ++ more) := by
  intro stack marks memo heap
  obtain ⟨value, middle, run, extended, shown⟩ := first stack marks memo heap
  obtain ⟨values, after, further, others, othersShown⟩ :=
    rest (value :: stack) marks memo middle
  refine ⟨value :: values, after, ?_, extended.trans others (by simp), ?_⟩
  · rw [List.reverse_cons, List.append_assoc]
    exact run.append further
  · exact ⟨value, values, rfl,
      shown.extend (Nat.le_refl _) (others.agreesFrom (by simp)),
      othersShown.extend extended.size (.refl _ after)⟩

end Plain

/-- The data of a part are well formed; what is added to a mapping or a set need
only be so one by one. -/
def Part.WellFormed : Part → Prop
  | .value plain => plain.WellFormed
  | .values plains | .items plains | .members plains =>
      ∀ plain ∈ plains, plain.WellFormed
  | .entries pairs =>
      ∀ pair ∈ pairs, pair.1.WellFormed ∧ pair.2.WellFormed

namespace Plain

variable {options : Options}

theorem wellFormed_alternating {entries : List (Plain × Plain)}
    (wellFormed : (Part.entries entries).WellFormed) :
    (Part.values (alternating entries)).WellFormed := by
  intro item member
  obtain ⟨entry, entryMember, member⟩ := List.mem_flatMap.mp member
  obtain ⟨keyFormed, itemFormed⟩ := wellFormed entry entryMember
  rcases List.mem_cons.mp member with rfl | member
  · exact keyFormed
  · rw [List.mem_singleton.mp member]
    exact itemFormed

theorem yields_of_encodes {part : Part} {code : Bytes}
    (encodes : Encodes part code) (wellFormed : part.WellFormed) :
    Yields options part code := by
  induction encodes with
  | scalar writes => exact yields_scalar writes
  | markedList _ inner =>
      cases wellFormed with
      | list items => exact yields_markedList (inner items)
  | emptyList _ inner =>
      cases wellFormed with
      | list items => exact yields_emptyList (inner items)
  | markedTuple _ inner =>
      cases wellFormed with
      | tuple items => exact yields_markedTuple (inner items)
  | emptyTuple => exact yields_emptyTuple
  | sizedTuple isSize _ inner =>
      cases wellFormed with
      | tuple items => exact yields_sizedTuple isSize (inner items)
  | markedDict _ inner =>
      cases wellFormed with
      | dict keys items distinct =>
          exact yields_markedDict distinct (inner (wellFormed_alternating
            fun entry member => ⟨keys entry member, items entry member⟩))
  | emptyDict _ inner =>
      cases wellFormed with
      | dict keys items distinct =>
          exact yields_emptyDict distinct (inner
            fun entry member => ⟨keys entry member, items entry member⟩)
  | emptySet _ inner =>
      cases wellFormed with
      | set members distinct => exact yields_emptySet distinct (inner members)
  | frozenset _ inner =>
      cases wellFormed with
      | frozenset members distinct =>
          exact yields_frozenset distinct (inner members)
  | noValue => exact yields_noValue
  | nextValue _ _ first rest =>
      obtain ⟨formed, others⟩ := List.forall_mem_cons.mp wellFormed
      exact yields_nextValue (first formed) (rest others)
  | noItem =>
      exact fun _ _ _ heap address present here =>
        ⟨[], heap, .nil _, .refl _ heap, by simpa using here, rfl⟩
  | append _ _ first rest =>
      obtain ⟨formed, others⟩ := List.forall_mem_cons.mp wellFormed
      exact yields_append (first formed) (rest others)
  | appends _ _ first rest =>
      obtain ⟨formed, others⟩ := List.forall_mem_append.mp wellFormed
      exact yields_appends (first formed) (rest others)
  | noEntry =>
      exact fun _ _ _ heap address present keys here _ _ =>
        ⟨[], heap, .nil _, .refl _ heap, by simpa using here, rfl⟩
  | setItem _ _ _ keyPart itemPart rest =>
      obtain ⟨formed, others⟩ := List.forall_mem_cons.mp wellFormed
      exact yields_setItem (keyPart formed.1) (itemPart formed.2)
        (rest others)
  | setItems _ _ first rest =>
      obtain ⟨formed, others⟩ := List.forall_mem_append.mp wellFormed
      exact yields_setItems (first (wellFormed_alternating formed))
        (rest others)
  | noMember =>
      exact fun _ _ _ heap address present keys here _ _ =>
        ⟨[], heap, .nil _, .refl _ heap, by simpa using here, rfl⟩
  | addItems _ _ first rest =>
      obtain ⟨formed, others⟩ := List.forall_mem_append.mp wellFormed
      exact yields_addItems (first formed) (rest others)

/-- Decoding any encoding of well-formed data gives a value that shows the data.
Whatever stands behind the end of the pickle is ignored. -/
theorem decode_encoding {plain : Plain} {prelude_ code : Bytes}
    (options : Options) (wellFormed : plain.WellFormed)
    (isPrelude : Prelude prelude_) (encodes : Encodes (.value plain) code)
    (rest : Bytes) :
    ∃ value heap,
      options.decode (prelude_ ++ code ++ Opcode.stop.code :: rest) =
          .ok (value, heap) ∧
        ShownBy heap 0 plain value := by
  have yields : YieldsValue options plain code :=
    yields_of_encodes encodes wellFormed
  obtain ⟨value, heap, run, _, shown⟩ := yields [] [] [] .empty
  exact ⟨value, heap,
    ((executes_prelude _ isPrelude).append run).decode rest, shown⟩

/-- The mapping of one text to a list of one number, filled in a batch. -/
theorem decode_encoding_dict :
    ∃ value heap,
      Options.standard.decode
          ([0x80, 0x04] ++
            [0x7D, 0x28, 0x8C, 0x01, 0x6B, 0x5D, 0x4B, 0x07, 0x61, 0x75] ++
            Opcode.stop.code :: []) = .ok (value, heap) ∧
        ShownBy heap 0
          (.dict [(.scalar (.str [0x6B]), .list [.scalar (.int 7)])])
          value := by
  have isPrelude : Prelude [0x80, 0x04] := .protocol (by decide)
  have isText : Scalar.textWidth? .shortBinUnicode = some 1 := rfl
  have isNumber : Scalar.numberWidth? .binInt1 = some 1 := rfl
  have text : Encodes (.value (.scalar (.str [0x6B]))) [0x8C, 0x01, 0x6B] :=
    .scalar (.text isText ⟨by decide, by decide⟩)
  have item : Encodes (.value (.scalar (.int 7))) [0x4B, 0x07] :=
    .scalar (.unsigned isNumber (by decide))
  have list : Encodes (.value (.list [.scalar (.int 7)]))
      [0x5D, 0x4B, 0x07, 0x61] :=
    .emptyList (.append item .noItem)
  have batch : Encodes
      (.values (alternating
        [(.scalar (.str [0x6B]), .list [.scalar (.int 7)])]))
      ([0x8C, 0x01, 0x6B] ++ ([0x5D, 0x4B, 0x07, 0x61] ++ [])) :=
    .nextValue text (.nextValue list .noValue)
  have dict : Encodes
      (.value (.dict [(.scalar (.str [0x6B]), .list [.scalar (.int 7)])]))
      [0x7D, 0x28, 0x8C, 0x01, 0x6B, 0x5D, 0x4B, 0x07, 0x61, 0x75] :=
    .emptyDict (.setItems batch .noEntry)
  have distinct : Distinct [.scalar (.str [0x6B])] :=
    ⟨[.str [0x6B]], rfl, List.pairwise_singleton _ _⟩
  have wellFormed : WellFormed
      (.dict [(.scalar (.str [0x6B]), .list [.scalar (.int 7)])]) := by
    refine .dict ?_ ?_ distinct
    · intro entry member
      rw [List.mem_singleton.mp member]
      exact .scalar
    · intro entry member
      rw [List.mem_singleton.mp member]
      refine .list fun item itemMember => ?_
      rw [List.mem_singleton.mp itemMember]
      exact .scalar
  exact decode_encoding .standard wellFormed isPrelude dict []

end Plain

end PickleGraph
