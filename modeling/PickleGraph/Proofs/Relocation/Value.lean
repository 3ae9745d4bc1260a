import PickleGraph.Dtype.OfValue
import PickleGraph.Machine.Basic
import PickleGraph.Value.Access

/-!
# Values over another heap

Addresses and marks count what a heap has held so far, so the values of a heap
have higher ones where another heap lies below. Nothing that is asked of a value
without its heap is answered differently.
-/

namespace PickleGraph

/-- How many objects lie below, and how many marks have been taken there. -/
structure Shift where
  objects : Nat
  marks : Nat

/-- Zero is the mark of what has no mark of its own. -/
def Shift.mark (shift : Shift) (mark : Nat) : Nat :=
  if mark = 0 then 0 else mark + shift.marks

namespace Value

/-- The same value with higher addresses and marks. -/
def shifted (shift : Shift) : Value → Value
  | float number mark => float number (shift.mark mark)
  | complex re im mark => complex re im (shift.mark mark)
  | tuple items => tuple (shiftedAll items)
  | frozenset members => frozenset (shiftedAll members)
  | .object address => .object (address + shift.objects)
  | value => value
where
  shiftedAll : List Value → List Value
    | [] => []
    | item :: items => shifted shift item :: shiftedAll items

end Value

variable (shift : Shift)

/-- Both values of an entry with higher addresses and marks. -/
def shiftedEntry (entry : Value × Value) : Value × Value :=
  (entry.1.shifted shift, entry.2.shifted shift)

namespace Shift

@[simp] theorem mark_zero : shift.mark 0 = 0 :=
  rfl

@[simp] theorem mark_eq_zero {mark : Nat} :
    shift.mark mark = 0 ↔ mark = 0 := by
  unfold Shift.mark
  by_cases isZero : mark = 0
  · simp [isZero]
  · simp [isZero]

@[simp] theorem mark_inj {mark other : Nat} :
    shift.mark mark = shift.mark other ↔ mark = other := by
  unfold Shift.mark
  by_cases isZero : mark = 0
  · by_cases otherIsZero : other = 0
    · simp [isZero, otherIsZero]
    · simp [isZero, otherIsZero]
      omega
  · by_cases otherIsZero : other = 0
    · simp [isZero, otherIsZero]
    · simp [isZero, otherIsZero]

end Shift

namespace Value

theorem shiftedAll_eq_map (items : List Value) :
    shifted.shiftedAll shift items = items.map (shifted shift) := by
  induction items with
  | nil => rfl
  | cons item rest inductionHypothesis =>
      rw [shifted.shiftedAll, inductionHypothesis, List.map_cons]

@[simp] theorem shifted_tuple (items : List Value) :
    (tuple items).shifted shift = tuple (items.map (shifted shift)) := by
  rw [shifted, shiftedAll_eq_map]

@[simp] theorem shifted_frozenset (members : List Value) :
    (frozenset members).shifted shift =
      frozenset (members.map (shifted shift)) := by
  rw [shifted, shiftedAll_eq_map]

@[simp] theorem shifted_object (address : Address) :
    (object address).shifted shift = object (address + shift.objects) :=
  rfl

@[simp] theorem shifted_str (text : Text) :
    (str text).shifted shift = str text :=
  rfl

/-! ## Plain values -/

/-- The plain value of an array element has no address and no mark. -/
theorem shifted_of_plainValue? {type : Dtype} {data : Bytes} {value : Value}
    (found : type.plainValue? data = some value) :
    value.shifted shift = value := by
  unfold Dtype.plainValue? at found
  split at found
  · dsimp only at found
    split at found
    · cases found
      rfl
    · cases found
      rfl
    · cases found
      rfl
    · obtain ⟨number, _, rfl⟩ := Option.map_eq_some_iff.mp found
      rfl
    · obtain ⟨re, _, found⟩ := Option.bind_eq_some_iff.mp found
      obtain ⟨im, _, found⟩ := Option.bind_eq_some_iff.mp found
      cases found
      rfl
    · cases found
      rfl
    · cases found
      rfl
    · cases found
  · cases found

@[simp] theorem plain_shifted (value : Value) :
    (value.shifted shift).plain = value.plain.shifted shift := by
  cases value with
  | scalar type data =>
      show (type.plainValue? data).getD (scalar type data) =
        ((type.plainValue? data).getD (scalar type data)).shifted shift
      cases found : type.plainValue? data with
      | none => rfl
      | some value => exact (shifted_of_plainValue? shift found).symm
  | _ => rfl

@[simp] theorem number?_shifted (value : Value) :
    (value.shifted shift).number? = value.number? := by
  unfold number?
  rw [plain_shifted]
  cases value.plain <;> rfl

@[simp] theorem text?_shifted (value : Value) :
    (value.shifted shift).text? = value.text? := by
  unfold text?
  rw [plain_shifted]
  cases value.plain <;> rfl

@[simp] theorem exactInt?_shifted (value : Value) :
    (value.shifted shift).exactInt? = value.exactInt? := by
  unfold exactInt?
  rw [plain_shifted]
  cases value.plain <;> rfl

@[simp] theorem position?_shifted (value : Value) :
    (value.shifted shift).position? = value.position? := by
  unfold position?
  rw [plain_shifted]
  cases value.plain <;> rfl

/-! ## Keys -/

/-- A comparison has the same outcome for numbers that are equal together. -/
theorem beq_congr_of_iff {first second other further : Nat}
    (same : first = second ↔ other = further) :
    (first == second) = (other == further) := by
  rw [Bool.eq_iff_iff, beq_iff_eq, beq_iff_eq]
  exact same

theorem sameMark_shifted (left right : Value) :
    matchesLeaf.sameMark (left.shifted shift) (right.shifted shift) =
      matchesLeaf.sameMark left right := by
  cases left with
  | float number mark =>
      cases right with
      | float other otherMark =>
          rw [shifted, shifted, matchesLeaf.sameMark, matchesLeaf.sameMark,
            bne, bne, beq_congr_of_iff shift.mark_eq_zero,
            beq_congr_of_iff shift.mark_inj]
      | _ => rfl
  | complex re im mark =>
      cases right with
      | complex otherRe otherIm otherMark =>
          rw [shifted, shifted, matchesLeaf.sameMark, matchesLeaf.sameMark,
            bne, bne, beq_congr_of_iff shift.mark_eq_zero,
            beq_congr_of_iff shift.mark_inj]
      | _ => rfl
  | _ => rfl

/-- What decides about two values that are compared as numbers. -/
theorem matchNumbers_shifted (first second : Value) :
    (match (first.shifted shift).number?, (second.shifted shift).number? with
      | some x, some y => x.equals y ||
          matchesLeaf.sameMark (first.shifted shift) (second.shifted shift)
      | _, _ => false) =
      (match first.number?, second.number? with
        | some x, some y => x.equals y || matchesLeaf.sameMark first second
        | _, _ => false) := by
  rw [number?_shifted, number?_shifted, sameMark_shifted]

theorem matchesLeaf_shifted (left right : Value) :
    (left.shifted shift).matchesLeaf (right.shifted shift) =
      left.matchesLeaf right := by
  unfold matchesLeaf
  rw [plain_shifted, plain_shifted]
  generalize left.plain = first
  generalize right.plain = second
  have numbers := matchNumbers_shifted shift first second
  cases first with
  | object address =>
      cases second with
      | object other => exact beq_congr_of_iff Nat.add_right_cancel_iff
      | _ => exact numbers
  | _ => cases second <;> first | rfl | exact numbers

mutual

theorem matchesKey_shifted (left right : Value) :
    (left.shifted shift).matchesKey (right.shifted shift) =
      left.matchesKey right := by
  cases left with
  | tuple items =>
      cases right with
      | tuple others =>
          rw [shifted_tuple, shifted_tuple, matchesKey, matchesKey]
          exact matchItems_shifted items others
      | _ => rfl
  | frozenset members =>
      cases right with
      | frozenset others =>
          rw [shifted_frozenset, shifted_frozenset, matchesKey, matchesKey,
            matchMembers_shifted members others]
          simp
      | _ => rfl
  | _ =>
      rw [matchesKey, matchesKey]
      · exact matchesLeaf_shifted shift _ right
      all_goals nofun

theorem matchItems_shifted (items others : List Value) :
    matchesKey.matchItems (items.map (shifted shift))
        (others.map (shifted shift)) =
      matchesKey.matchItems items others := by
  cases items with
  | nil => cases others <;> rfl
  | cons item rest =>
      cases others with
      | nil => rfl
      | cons other further =>
          rw [List.map_cons, List.map_cons, matchesKey.matchItems,
            matchesKey.matchItems, matchesKey_shifted item other,
            matchItems_shifted rest further]

theorem matchMembers_shifted (members others : List Value) :
    matchesKey.matchMembers (members.map (shifted shift))
        (others.map (shifted shift)) =
      matchesKey.matchMembers members others := by
  cases members with
  | nil => rfl
  | cons member rest =>
      have matched : (others.map (shifted shift)).any
          ((member.shifted shift).matchesKey ·) =
            others.any (member.matchesKey ·) := by
        rw [List.any_map]
        congr 1
        funext other
        exact matchesKey_shifted member other
      rw [List.map_cons, matchesKey.matchMembers, matchesKey.matchMembers,
        matched, matchMembers_shifted rest others]

end

theorem ctorIdx_shifted (value : Value) :
    (value.shifted shift).ctorIdx = value.ctorIdx := by
  cases value <;> rfl

mutual

theorem comparisonDepth_shifted (left right : Value) :
    (left.shifted shift).comparisonDepth (right.shifted shift) =
      left.comparisonDepth right := by
  cases left with
  | tuple items =>
      cases right with
      | tuple others =>
          rw [shifted_tuple, shifted_tuple, comparisonDepth, comparisonDepth,
            depthOfItems_shifted items others]
      | _ => rfl
  | _ =>
      rw [comparisonDepth, comparisonDepth, ctorIdx_shifted, ctorIdx_shifted]
      all_goals nofun

theorem depthOfItems_shifted (items others : List Value) :
    comparisonDepth.depthOfItems (items.map (shifted shift))
        (others.map (shifted shift)) =
      comparisonDepth.depthOfItems items others := by
  cases items with
  | nil => rfl
  | cons item rest =>
      cases others with
      | nil => rfl
      | cons other further =>
          rw [List.map_cons, List.map_cons, comparisonDepth.depthOfItems,
            comparisonDepth.depthOfItems, comparisonDepth_shifted item other,
            depthOfItems_shifted rest further]

end

theorem isBeyond_shifted (left right : Value) :
    (left.shifted shift).isBeyond (right.shifted shift) =
      left.isBeyond right := by
  rw [isBeyond, isBeyond, matchesKey_shifted, comparisonDepth_shifted]

theorem matchesKey_str_shifted (value : Value) (text : Text) :
    (value.shifted shift).matchesKey (str text) =
      value.matchesKey (str text) :=
  matchesKey_shifted shift value (str text)

end Value

/-! ## Entries and members -/

namespace Entries

variable (key value : Value) (entries additions : List (Value × Value))

theorem insert_shifted :
    insert (key.shifted shift) (value.shifted shift)
        (entries.map (shiftedEntry shift)) =
      (insert key value entries).map (shiftedEntry shift) := by
  induction entries with
  | nil => rfl
  | cons entry rest inductionHypothesis =>
      obtain ⟨bound, old⟩ := entry
      rw [List.map_cons, shiftedEntry, insert, insert,
        Value.matchesKey_shifted]
      by_cases same : bound.matchesKey key = true
      · rw [if_pos same, if_pos same]
        rfl
      · rw [if_neg same, if_neg same, inductionHypothesis]
        rfl

@[simp] theorem merge_shifted :
    merge (entries.map (shiftedEntry shift))
        (additions.map (shiftedEntry shift)) =
      (merge entries additions).map (shiftedEntry shift) := by
  induction additions generalizing entries with
  | nil => rfl
  | cons entry rest inductionHypothesis =>
      have inserted := insert_shifted shift entry.1 entry.2 entries
      rw [merge, merge, List.map_cons, List.foldl_cons, List.foldl_cons]
      dsimp only [shiftedEntry] at inserted ⊢
      rw [inserted]
      exact inductionHypothesis (insert entry.1 entry.2 entries)

theorem merge_nil_shifted :
    merge [] (additions.map (shiftedEntry shift)) =
      (merge [] additions).map (shiftedEntry shift) :=
  merge_shifted shift [] additions

@[simp] theorem find?_shifted :
    find? (key.shifted shift) (entries.map (shiftedEntry shift)) =
      (find? key entries).map (Value.shifted shift) := by
  unfold find?
  have matched : ((fun entry : Value × Value =>
      entry.1.matchesKey (key.shifted shift)) ∘ shiftedEntry shift) =
        fun entry => entry.1.matchesKey key := by
    funext entry
    exact Value.matchesKey_shifted shift entry.1 key
  rw [List.find?_map, matched, Option.map_map, Option.map_map]
  rfl

@[simp] theorem findText?_shifted (name : String) :
    findText? name (entries.map (shiftedEntry shift)) =
      (findText? name entries).map (Value.shifted shift) :=
  find?_shifted shift (.str (Text.ofString name)) entries

end Entries

namespace Members

variable (member : Value) (members additions : List Value)

theorem insert_shifted :
    insert (member.shifted shift) (members.map (Value.shifted shift)) =
      (insert member members).map (Value.shifted shift) := by
  have matched : (members.map (Value.shifted shift)).any
      (·.matchesKey (member.shifted shift)) =
        members.any (·.matchesKey member) := by
    rw [List.any_map]
    congr 1
    funext other
    exact Value.matchesKey_shifted shift other member
  unfold insert
  rw [matched]
  by_cases present : members.any (·.matchesKey member) = true
  · rw [if_pos present, if_pos present]
  · rw [if_neg present, if_neg present, List.map_append]
    rfl

@[simp] theorem merge_shifted :
    merge (members.map (Value.shifted shift))
        (additions.map (Value.shifted shift)) =
      (merge members additions).map (Value.shifted shift) := by
  induction additions generalizing members with
  | nil => rfl
  | cons addition rest inductionHypothesis =>
      rw [merge, merge, List.map_cons, List.foldl_cons, List.foldl_cons,
        insert_shifted]
      exact inductionHypothesis (insert addition members)

@[simp] theorem reach_shifted :
    reach (members.map (Value.shifted shift))
        (additions.map (Value.shifted shift)) =
      reach members additions := by
  induction additions generalizing members with
  | nil => rfl
  | cons addition rest inductionHypothesis =>
      have matched : (members.map (Value.shifted shift)).any
          (·.isBeyond (addition.shifted shift)) =
            members.any (·.isBeyond addition) := by
        rw [List.any_map]
        congr 1
        funext other
        exact Value.isBeyond_shifted shift other addition
      rw [List.map_cons, reach, reach, matched, insert_shifted,
        inductionHypothesis]

end Members

theorem Entries.keys_shifted (entries : List (Value × Value)) :
    (entries.map (shiftedEntry shift)).map (·.1) =
      (entries.map (·.1)).map (Value.shifted shift) := by
  rw [List.map_map, List.map_map]
  rfl

@[simp] theorem Entries.reach_shifted (entries additions : List (Value × Value)) :
    reach (entries.map (shiftedEntry shift))
        (additions.map (shiftedEntry shift)) =
      reach entries additions := by
  rw [reach, reach, keys_shifted, keys_shifted, Members.reach_shifted]

end PickleGraph

/-!
## Memos over another heap

What is found in a memo is found with higher addresses and marks in another one,
and this stays so whatever both are given. Other slots may be bound there before:
nothing that is found in the first memo is found in them.
-/

namespace PickleGraph.Memo

/-! ## Slots -/

theorem lookup_map (change : Value → Value) (slot : Nat)
    (memo : List (Nat × Value)) :
    (memo.map fun (slot, value) => (slot, change value)).lookup slot =
      (memo.lookup slot).map change := by
  induction memo with
  | nil => rfl
  | cons entry rest inductionHypothesis =>
      rw [List.map_cons, List.lookup_cons, List.lookup_cons,
        inductionHypothesis]
      cases slot == entry.1 <;> rfl

theorem lookup_insert (slot other : Nat) (value : Value)
    (memo : List (Nat × Value)) :
    (insert slot value memo).lookup other =
      if other = slot then some value else memo.lookup other := by
  induction memo with
  | nil =>
      rw [insert, List.lookup_cons, List.lookup_nil]
      by_cases same : other = slot
      · rw [if_pos same, beq_iff_eq.mpr same]
      · rw [if_neg same, beq_false_of_ne same]
  | cons entry rest inductionHypothesis =>
      obtain ⟨bound, old⟩ := entry
      rw [insert]
      by_cases here : bound = slot
      · subst here
        rw [if_pos rfl, List.lookup_cons, List.lookup_cons]
        by_cases same : other = bound
        · rw [if_pos same, beq_iff_eq.mpr same]
        · rw [if_neg same, beq_false_of_ne same]
      · rw [if_neg here, List.lookup_cons, List.lookup_cons,
          inductionHypothesis]
        by_cases same : other = bound
        · subst same
          rw [if_neg here, if_neg here]
        · rw [beq_false_of_ne same]

/-- What a value is replaced by where another one takes the place of an
object. -/
def replacement (address : Address) (value : Value) : Value → Value
  | .object other => if other = address then value else .object other
  | bound => bound

theorem replace_eq_map (address : Address) (value : Value)
    (memo : List (Nat × Value)) :
    replace address value memo =
      memo.map fun (slot, bound) =>
        (slot, replacement address value bound) := by
  refine List.map_congr_left fun entry _ => ?_
  obtain ⟨slot, bound⟩ := entry
  cases bound <;> rfl

section Shift

variable (shift : Shift)

/-- The memo with higher addresses and marks in its values. -/
def shifted (memo : List (Nat × Value)) : List (Nat × Value) :=
  memo.map fun (slot, value) => (slot, value.shifted shift)

theorem insert_shifted (slot : Nat) (value : Value)
    (memo : List (Nat × Value)) :
    insert slot (value.shifted shift) (shifted shift memo) =
      shifted shift (insert slot value memo) := by
  induction memo with
  | nil => rfl
  | cons entry rest inductionHypothesis =>
      obtain ⟨bound, old⟩ := entry
      unfold shifted at inductionHypothesis ⊢
      rw [List.map_cons, insert, insert, inductionHypothesis]
      split <;> rfl

theorem replacement_shifted (address : Nat) (value bound : Value) :
    replacement (address + shift.objects) (value.shifted shift)
        (bound.shifted shift) =
      (replacement address value bound).shifted shift := by
  cases bound with
  | object other =>
      rw [Value.shifted_object, replacement, replacement]
      by_cases here : other = address
      · rw [if_pos here, if_pos (congrArg (· + shift.objects) here)]
      · rw [if_neg here, if_neg (mt Nat.add_right_cancel here)]
        rfl
  | tuple items =>
      rw [Value.shifted_tuple]
      exact (Value.shifted_tuple shift items).symm
  | frozenset members =>
      rw [Value.shifted_frozenset]
      exact (Value.shifted_frozenset shift members).symm
  | _ => rfl

theorem replace_shifted (address : Nat) (value : Value)
    (memo : List (Nat × Value)) :
    replace (address + shift.objects) (value.shifted shift)
        (shifted shift memo) =
      shifted shift (replace address value memo) := by
  rw [replace_eq_map, replace_eq_map, shifted, shifted, List.map_map,
    List.map_map]
  refine List.map_congr_left fun entry _ => ?_
  exact congrArg (Prod.mk entry.1)
    (replacement_shifted shift address value entry.2)

end Shift

/-- Every slot of the first memo is found in the second one. If both are fresh,
there are no other slots. -/
structure Mirrors (shift : Shift) (areFresh : Bool)
    (memo other : List (Nat × Value)) : Prop where
  lookup : ∀ {slot : Nat} {value : Value}, memo.lookup slot = some value →
    other.lookup slot = some (value.shifted shift)
  whole : areFresh = true → other = shifted shift memo

namespace Mirrors

variable {shift : Shift} {areFresh : Bool} {memo other : List (Nat × Value)}

theorem nil (areFresh : Bool) (fresh : areFresh = true → other = []) :
    Mirrors shift areFresh [] other :=
  ⟨nofun, fresh⟩

theorem insert (mirrors : Mirrors shift areFresh memo other) (slot : Nat)
    (value : Value) :
    Mirrors shift areFresh (Memo.insert slot value memo)
      (Memo.insert slot (value.shifted shift) other) where
  lookup := by
    intro wanted found isFound
    rw [lookup_insert] at isFound ⊢
    by_cases same : wanted = slot
    · rw [if_pos same] at isFound ⊢
      cases isFound
      rfl
    · rw [if_neg same] at isFound ⊢
      exact mirrors.lookup isFound
  whole fresh := by
    rw [mirrors.whole fresh, insert_shifted]

theorem replace (mirrors : Mirrors shift areFresh memo other) (address : Nat)
    (value : Value) :
    Mirrors shift areFresh (Memo.replace address value memo)
      (Memo.replace (address + shift.objects) (value.shifted shift)
        other) where
  lookup := by
    intro slot found isFound
    rw [replace_eq_map, lookup_map] at isFound ⊢
    obtain ⟨bound, isBound, rfl⟩ := Option.map_eq_some_iff.mp isFound
    rw [mirrors.lookup isBound]
    exact congrArg some (replacement_shifted shift address value bound)
  whole fresh := by
    rw [mirrors.whole fresh, replace_shifted]

end Mirrors

end PickleGraph.Memo
