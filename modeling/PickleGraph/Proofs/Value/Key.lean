import Mathlib.Data.List.Basic
import PickleGraph.Value.Key

/-!
# Keys

Keys of which none matches another one are all kept by a mapping or a set, in
the order in which they were added. A text is matched by itself only, so that an
entry bound to a text leaves the entries of other texts alone. Additions that are
made in parts reach as far as all of them at once.
-/

namespace PickleGraph

/-- Keys of which none matches a later one. -/
def Value.Apart (keys : List Value) : Prop :=
  keys.Pairwise fun earlier later => earlier.matchesKey later = false

theorem Value.Apart.of_append {first second : List Value}
    (apart : Value.Apart (first ++ second)) : Value.Apart first :=
  (List.pairwise_append.mp apart).1

theorem Entries.insert_of_notMatched
    {key value : Value} {entries : List (Value × Value)}
    (fresh : ∀ entry ∈ entries, entry.1.matchesKey key = false) :
    Entries.insert key value entries = entries ++ [(key, value)] := by
  induction entries with
  | nil => rfl
  | cons entry rest inductionHypothesis =>
      have noMatch : ¬ entry.1.matchesKey key = true :=
        Bool.eq_false_iff.mp (fresh entry List.mem_cons_self)
      rw [Entries.insert, if_neg noMatch, inductionHypothesis fun other member =>
        fresh other (List.mem_cons_of_mem entry member)]
      rfl

theorem Entries.merge_of_apart {present additions : List (Value × Value)}
    (apart : Value.Apart ((present ++ additions).map (·.1))) :
    Entries.merge present additions = present ++ additions := by
  induction additions generalizing present with
  | nil => exact (List.append_nil present).symm
  | cons entry rest inductionHypothesis =>
      have regrouped : present ++ entry :: rest = present ++ [entry] ++ rest :=
        List.append_cons present entry rest
      have fresh : ∀ other ∈ present, other.1.matchesKey entry.1 = false := by
        intro other member
        rw [Value.Apart, List.map_append, List.pairwise_append] at apart
        exact apart.2.2 _ (List.mem_map_of_mem member) _
          (List.mem_map_of_mem List.mem_cons_self)
      rw [Entries.merge, List.foldl_cons]
      dsimp only
      rw [Entries.insert_of_notMatched fresh, regrouped]
      rw [regrouped] at apart
      exact inductionHypothesis apart

theorem Members.merge_append (present earlier later : List Value) :
    Members.merge present (earlier ++ later) =
      Members.merge (Members.merge present earlier) later :=
  List.foldl_append

theorem Members.merge_of_apart {present additions : List Value}
    (apart : Value.Apart (present ++ additions)) :
    Members.merge present additions = present ++ additions := by
  induction additions generalizing present with
  | nil => exact (List.append_nil present).symm
  | cons member rest inductionHypothesis =>
      have regrouped :
          present ++ member :: rest = present ++ [member] ++ rest :=
        List.append_cons present member rest
      have fresh : present.any (·.matchesKey member) = false := by
        rw [Value.Apart, List.pairwise_append] at apart
        rw [List.any_eq_false]
        intro other isMember
        rw [apart.2.2 _ isMember _ List.mem_cons_self]
        exact Bool.false_ne_true
      rw [Members.merge, List.foldl_cons, Members.insert, fresh, regrouped]
      rw [regrouped] at apart
      exact inductionHypothesis apart

/-! ## The reach of comparisons -/

/-- The value in so many tuples of one item. -/
def Value.nested (value : Value) : Nat → Value
  | 0 => value
  | depth + 1 => .tuple [value.nested depth]

/-- A key that is nested too deep to be compared with a key that it matches. -/
def Value.IsDeep (key : Value) : Prop :=
  ∃ bound : Value, bound.isBeyond key = true

namespace Members

theorem reach_cons (members : List Value) (addition : Value)
    (rest : List Value) :
    reach members (addition :: rest) =
      if members.any (·.isBeyond addition) then 0
      else reach (insert addition members) rest + 1 :=
  rfl

theorem reach_le (members additions : List Value) :
    reach members additions ≤ additions.length := by
  induction additions generalizing members with
  | nil => exact Nat.zero_le _
  | cons addition rest inductionHypothesis =>
      rw [reach_cons]
      split
      · exact Nat.zero_le _
      · exact Nat.succ_le_succ (inductionHypothesis _)

/-- Further additions are reached if those before them are. -/
theorem reach_append (members earlier later : List Value) :
    reach members (earlier ++ later) =
      if reach members earlier = earlier.length then
        earlier.length + reach (merge members earlier) later
      else
        reach members earlier := by
  induction earlier generalizing members with
  | nil => simp [reach, merge]
  | cons addition rest inductionHypothesis =>
      rw [List.cons_append, reach_cons, reach_cons]
      split
      · simp
      · rw [inductionHypothesis, List.length_cons]
        simp only [Nat.add_right_cancel_iff]
        split
        · exact Nat.add_right_comm _ _ _
        · rfl

/-- Only a deep key is out of reach. -/
theorem exists_isDeep_of_reach {members additions : List Value}
    (short : reach members additions ≠ additions.length) :
    ∃ addition ∈ additions, addition.IsDeep := by
  induction additions generalizing members with
  | nil => exact absurd rfl short
  | cons addition rest inductionHypothesis =>
      rw [reach_cons] at short
      split at short
      · next beyond =>
          obtain ⟨bound, _, isBeyond⟩ := List.any_eq_true.mp beyond
          exact ⟨addition, List.mem_cons_self, bound, isBeyond⟩
      · obtain ⟨deep, isAdded, isDeep⟩ := inductionHypothesis
          fun reached => short (congrArg (· + 1) reached)
        exact ⟨deep, List.mem_cons_of_mem _ isAdded, isDeep⟩

theorem reach_of_apart {members additions : List Value}
    (apart : Value.Apart (members ++ additions)) :
    reach members additions = additions.length := by
  induction additions generalizing members with
  | nil => rfl
  | cons addition rest inductionHypothesis =>
      have fresh : members.any (·.matchesKey addition) = false := by
        rw [Value.Apart, List.pairwise_append] at apart
        rw [List.any_eq_false]
        intro member isMember
        rw [apart.2.2 _ isMember _ List.mem_cons_self]
        exact Bool.false_ne_true
      have near : members.any (·.isBeyond addition) = false := by
        rw [List.any_eq_false] at fresh ⊢
        intro member isMember isBeyond
        exact fresh member isMember (Bool.and_eq_true_iff.mp isBeyond).1
      rw [List.append_cons] at apart
      rw [reach_cons, near, insert, fresh, List.length_cons]
      exact congrArg (· + 1) (inductionHypothesis apart)

end Members

namespace Entries

theorem keys_insert (key value : Value) (entries : List (Value × Value)) :
    (insert key value entries).map (·.1) =
      Members.insert key (entries.map (·.1)) := by
  unfold Members.insert
  induction entries with
  | nil => rfl
  | cons entry rest inductionHypothesis =>
      rw [insert, List.map_cons, List.any_cons]
      cases isMatch : entry.1.matchesKey key with
      | true => rfl
      | false =>
          simp only [Bool.false_eq_true, if_false, List.map_cons,
            inductionHypothesis, Bool.false_or]
          split <;> rfl

theorem keys_merge (entries additions : List (Value × Value)) :
    (merge entries additions).map (·.1) =
      Members.merge (entries.map (·.1)) (additions.map (·.1)) := by
  induction additions generalizing entries with
  | nil => rfl
  | cons addition rest inductionHypothesis =>
      refine (inductionHypothesis (insert addition.1 addition.2 entries)).trans ?_
      rw [keys_insert]
      rfl

theorem reach_le (entries additions : List (Value × Value)) :
    reach entries additions ≤ additions.length := by
  have bounded := Members.reach_le (entries.map (·.1)) (additions.map (·.1))
  rwa [List.length_map] at bounded

theorem reach_append (entries earlier later : List (Value × Value)) :
    reach entries (earlier ++ later) =
      if reach entries earlier = earlier.length then
        earlier.length + reach (merge entries earlier) later
      else
        reach entries earlier := by
  unfold reach
  rw [List.map_append, Members.reach_append, keys_merge, List.length_map]

theorem exists_isDeep_of_reach {entries additions : List (Value × Value)}
    (short : reach entries additions ≠ additions.length) :
    ∃ key ∈ additions.map (·.1), key.IsDeep := by
  rw [reach, ← List.length_map (·.1)] at short
  exact Members.exists_isDeep_of_reach short

theorem reach_of_apart {entries additions : List (Value × Value)}
    (apart : Value.Apart ((entries ++ additions).map (·.1))) :
    reach entries additions = additions.length := by
  rw [List.map_append] at apart
  rw [reach, Members.reach_of_apart apart, List.length_map]

end Entries

/-! ## Places of keys -/

namespace Entries

variable {key other value old : Value} {bound : Value}
variable {present earlier later entries : List (Value × Value)}

theorem merge_append (present earlier later : List (Value × Value)) :
    merge present (earlier ++ later) = merge (merge present earlier) later :=
  List.foldl_append

/-- Where a key is bound: at the first key that matches it, or else behind all
entries. -/
def place (key : Value) (entries : List (Value × Value)) : Nat :=
  entries.findIdx fun entry => entry.1.matchesKey key

theorem place_cons (key : Value) (entry : Value × Value)
    (rest : List (Value × Value)) :
    place key (entry :: rest) =
      if entry.1.matchesKey key then 0 else place key rest + 1 := by
  unfold place
  rw [List.findIdx_cons]
  cases entry.1.matchesKey key <;> rfl

/-- The key object that is bound where a key belongs: the first one that matches
it, or else the key itself. -/
def boundKey (key : Value) (entries : List (Value × Value)) : Value :=
  ((entries[place key entries]?).map (·.1)).getD key

/-- Only the entry at the place of the key is another one. -/
theorem getElem?_insert (key value : Value) (entries : List (Value × Value))
    (index : Nat) :
    (insert key value entries)[index]? =
      if index = place key entries then
        some (boundKey key entries, value)
      else
        entries[index]? := by
  unfold boundKey
  induction entries generalizing index with
  | nil => cases index <;> rfl
  | cons entry rest inductionHypothesis =>
      rw [insert, place_cons]
      cases isMatch : entry.1.matchesKey key with
      | true => cases index <;> rfl
      | false =>
          cases index with
          | zero => rfl
          | succ index =>
              have later := inductionHypothesis index
              simp only [Bool.false_eq_true, if_false,
                List.getElem?_cons_succ, Nat.add_right_cancel_iff]
              exact later

theorem getElem?_insert_place (key value : Value)
    (entries : List (Value × Value)) :
    (insert key value entries)[place key entries]? =
      some (boundKey key entries, value) := by
  rw [getElem?_insert, if_pos rfl]

/-- An entry that is there keeps its place and its key object. -/
theorem key_insert {index : Nat}
    (isThere : entries[index]? = some (bound, old)) :
    ∃ last, (insert key value entries)[index]? = some (bound, last) := by
  rw [getElem?_insert]
  split
  · next here =>
      refine ⟨value, ?_⟩
      rw [boundKey, ← here, isThere]
      rfl
  · exact ⟨old, isThere⟩

theorem key_merge {index : Nat}
    (isThere : entries[index]? = some (bound, old))
    (later : List (Value × Value)) :
    ∃ value, (merge entries later)[index]? = some (bound, value) := by
  induction later generalizing entries old with
  | nil => exact ⟨old, isThere⟩
  | cons entry rest inductionHypothesis =>
      obtain ⟨value, stillThere⟩ := key_insert isThere
      exact inductionHypothesis stillThere

/-- No later key is bound at the place. -/
def Spares (entries later : List (Value × Value)) (index : Nat) : Prop :=
  ∀ between other last rest, later = between ++ (other, last) :: rest →
    place other (merge entries between) ≠ index

theorem value_merge {index : Nat}
    (isThere : entries[index]? = some (bound, old))
    (spares : Spares entries later index) :
    (merge entries later)[index]? = some (bound, old) := by
  induction later generalizing entries with
  | nil => exact isThere
  | cons entry rest inductionHypothesis =>
      have apart : index ≠ place entry.1 entries :=
        (spares [] entry.1 entry.2 rest rfl).symm
      have stillThere : (insert entry.1 entry.2 entries)[index]? =
          some (bound, old) := by
        rw [getElem?_insert, if_neg apart]
        exact isThere
      refine inductionHypothesis stillThere ?_
      rintro between other last more rfl
      exact spares (entry :: between) other last more rfl

/-- A key is not bound at the place of a key that does not match it. -/
theorem spares_of_unmatched {index : Nat}
    (isThere : entries[index]? = some (bound, old))
    (unmatched : ∀ entry ∈ later, bound.matchesKey entry.1 = false) :
    Spares entries later index := by
  rintro between other last rest rfl isPlace
  obtain ⟨value, stillThere⟩ := key_merge isThere between
  have isMatch : bound.matchesKey other = true := by
    obtain ⟨bounded, isEntry⟩ := List.getElem?_eq_some_iff.mp stillThere
    subst isPlace
    have found := List.findIdx_getElem (w := bounded)
    exact (congrArg (·.1.matchesKey other) isEntry).symm.trans found
  have noMatch := unmatched (other, last) (by simp)
  rw [isMatch] at noMatch
  cases noMatch

/-- The first key object and its place are kept. -/
theorem first_key_kept (present earlier later : List (Value × Value))
    (key value : Value) :
    ∃ last, (merge present (earlier ++ (key, value) :: later))[
        place key (merge present earlier)]? =
      some (boundKey key (merge present earlier), last) := by
  rw [merge_append]
  exact key_merge (getElem?_insert_place key value (merge present earlier))
    later

/-- The last value counts. -/
theorem last_value_kept
    (spares : Spares (merge present (earlier ++ [(key, value)])) later
      (place key (merge present earlier))) :
    (merge present (earlier ++ (key, value) :: later))[
        place key (merge present earlier)]? =
      some (boundKey key (merge present earlier), value) := by
  rw [List.append_cons, merge_append]
  refine value_merge ?_ spares
  rw [merge_append]
  exact getElem?_insert_place key value (merge present earlier)

end Entries

/-! ## Texts -/

theorem Text.ofString_inj {first second : String} :
    ofString first = ofString second ↔ first = second := by
  constructor
  · intro same
    have injective : Function.Injective CodePoint.ofChar :=
      fun one other equal => Char.toNat_inj.mp (Fin.mk.inj equal)
    exact String.toList_injective (List.map_injective_iff.mpr injective same)
  · exact congrArg ofString

/-- A key that stands for a text matches the keys that stand for it. -/
theorem Value.matchesLeaf_iff_of_plain {bound key : Value} {text : Text}
    (isText : bound.plain = .str text) :
    bound.matchesLeaf key = true ↔ key.plain = .str text := by
  have noNumber : (Value.str text).number? = Option.none := rfl
  unfold Value.matchesLeaf
  rw [isText]
  cases key.plain with
  | str other =>
      rw [beq_iff_eq, Value.str.injEq]
      exact eq_comm
  | _ => simp [noNumber]

theorem Value.matchesLeaf_plain_iff {bound key : Value} {text : Text}
    (isText : key.plain = .str text) :
    bound.matchesLeaf key = true ↔ bound.plain = .str text := by
  have noNumber : (Value.str text).number? = Option.none := rfl
  unfold Value.matchesLeaf
  rw [isText]
  cases bound.plain with
  | str other => simp
  | _ => simp [noNumber]

theorem Value.matchesKey_iff_of_plain {bound key : Value} {text : Text}
    (isText : bound.plain = .str text) :
    bound.matchesKey key = true ↔ key.plain = .str text := by
  cases bound with
  | tuple items => cases isText
  | frozenset members => cases isText
  | _ => simp only [Value.matchesKey, Value.matchesLeaf_iff_of_plain isText]

theorem Value.matchesKey_plain_iff {bound key : Value} {text : Text}
    (isText : key.plain = .str text) :
    bound.matchesKey key = true ↔ bound.plain = .str text := by
  cases bound with
  | tuple items =>
      cases key with
      | tuple others => cases isText
      | _ => simp [Value.matchesKey, Value.plain]
  | frozenset members =>
      cases key with
      | frozenset others => cases isText
      | _ => simp [Value.matchesKey, Value.plain]
  | _ => simp only [Value.matchesKey, Value.matchesLeaf_plain_iff isText]

theorem Value.matchesKey_str_iff {value : Value} {text : Text} :
    value.matchesKey (.str text) = true ↔ value.plain = .str text :=
  matchesKey_plain_iff rfl

/-- Texts match only themselves. -/
theorem Value.str_matchesKey_str_iff {first second : Text} :
    (Value.str first).matchesKey (.str second) = true ↔ first = second := by
  rw [matchesKey_str_iff]
  exact Value.str.injEq first second ▸ Iff.rfl

namespace Entries

theorem find?_cons (key bound value : Value) (rest : List (Value × Value)) :
    find? key ((bound, value) :: rest) =
      if bound.matchesKey key then some value else find? key rest := by
  unfold find?
  rw [List.find?_cons]
  cases bound.matchesKey key <;> rfl

theorem find?_str_cons (name other : Text) (value : Value)
    (rest : List (Value × Value)) :
    find? (.str name) ((.str other, value) :: rest) =
      if other = name then some value else find? (.str name) rest := by
  rw [find?_cons]
  simp only [Value.str_matchesKey_str_iff]

theorem find?_insert_text (key value : Value) (text : Text)
    (entries : List (Value × Value)) :
    find? (.str text) (insert key value entries) =
      if key.matchesKey (.str text) then some value
      else find? (.str text) entries := by
  induction entries with
  | nil => rw [insert, find?_cons]
  | cons entry rest inductionHypothesis =>
      obtain ⟨bound, old⟩ := entry
      rw [insert]
      by_cases isBound : bound.matchesKey key = true
      · rw [if_pos isBound, find?_cons, find?_cons]
        by_cases isText : key.plain = .str text
        · have boundIsText := (Value.matchesKey_plain_iff isText).mp isBound
          rw [if_pos (Value.matchesKey_str_iff.mpr boundIsText),
            if_pos (Value.matchesKey_str_iff.mpr isText)]
        · have boundIsOther : ¬ bound.matchesKey (.str text) = true :=
            fun isMatch => isText ((Value.matchesKey_iff_of_plain
              (Value.matchesKey_str_iff.mp isMatch)).mp isBound)
          rw [if_neg boundIsOther, if_neg boundIsOther,
            if_neg (mt Value.matchesKey_str_iff.mp isText)]
      · rw [if_neg isBound, find?_cons, find?_cons, inductionHypothesis]
        by_cases isMatch : bound.matchesKey (.str text) = true
        · have keyIsOther : ¬ key.matchesKey (.str text) = true :=
            fun keyIsText => isBound ((Value.matchesKey_iff_of_plain
              (Value.matchesKey_str_iff.mp isMatch)).mpr
                (Value.matchesKey_str_iff.mp keyIsText))
          rw [if_pos isMatch, if_pos isMatch, if_neg keyIsOther]
        · rw [if_neg isMatch, if_neg isMatch]

theorem find?_insert_str (name other : Text) (value : Value)
    (entries : List (Value × Value)) :
    find? (.str other) (insert (.str name) value entries) =
      if name = other then some value else find? (.str other) entries := by
  rw [find?_insert_text]
  simp only [Value.str_matchesKey_str_iff]

/-- The value of the last entry under a key. -/
def last? (key : Value) (entries : List (Value × Value)) : Option Value :=
  find? key entries.reverse

theorem find?_append (key : Value) (first second : List (Value × Value)) :
    find? key (first ++ second) =
      (find? key first).or (find? key second) := by
  unfold find?
  rw [List.find?_append]
  cases first.find? fun entry => entry.1.matchesKey key <;> rfl

/-- The last entry under a text counts. -/
theorem find?_merge_text (text : Text)
    (entries later : List (Value × Value)) :
    find? (.str text) (merge entries later) =
      (last? (.str text) later).or (find? (.str text) entries) := by
  induction later generalizing entries with
  | nil => rfl
  | cons entry rest inductionHypothesis =>
      obtain ⟨key, value⟩ := entry
      have first : find? (.str text) (insert key value entries) =
          (find? (.str text) [(key, value)]).or
            (find? (.str text) entries) := by
        rw [find?_insert_text, find?_cons]
        cases key.matchesKey (.str text) <;> rfl
      have regrouped : last? (.str text) ((key, value) :: rest) =
          (last? (.str text) rest).or
            (find? (.str text) [(key, value)]) := by
        unfold last?
        rw [List.reverse_cons, find?_append]
      rw [regrouped, Option.or_assoc, ← first]
      exact inductionHypothesis _

/-- Of several mappings that are merged one after the other, the last one with
an entry under a text decides. -/
theorem find?_merge_flatten (text : Text) (entries : List (Value × Value))
    (mappings : List (List (Value × Value))) :
    find? (.str text) (merge entries mappings.reverse.flatten) =
      (mappings.findSome? (last? (.str text))).or
        (find? (.str text) entries) := by
  rw [find?_merge_text]
  congr 1
  induction mappings with
  | nil => rfl
  | cons mapping rest inductionHypothesis =>
      unfold last? at inductionHypothesis ⊢
      rw [List.reverse_cons, List.flatten_append, List.reverse_append,
        find?_append, inductionHypothesis, List.findSome?_cons]
      simp only [List.flatten_cons, List.flatten_nil, List.append_nil]
      cases find? (.str text) mapping.reverse <;> rfl

/-- Entries under texts. -/
def named (pairs : List (String × Value)) : List (Value × Value) :=
  pairs.map fun pair => (.str (Text.ofString pair.1), pair.2)

/-- The last entry of a name counts. -/
theorem findText?_merge_named (name : String)
    (entries : List (Value × Value)) (pairs : List (String × Value)) :
    findText? name (merge entries (named pairs)) =
      (pairs.reverse.lookup name).or (findText? name entries) := by
  induction pairs generalizing entries with
  | nil => rfl
  | cons pair rest inductionHypothesis =>
      have first : findText? name
          (insert (.str (Text.ofString pair.1)) pair.2 entries) =
            ([pair].lookup name).or (findText? name entries) := by
        unfold findText?
        rw [find?_insert_str]
        simp only [Text.ofString_inj]
        by_cases same : pair.1 = name
        · rw [if_pos same, List.lookup_cons, beq_iff_eq.mpr same.symm]
          rfl
        · have apart : (name == pair.1) = false :=
            beq_false_of_ne (Ne.symm same)
          rw [if_neg same, List.lookup_cons, apart]
          rfl
      have later := inductionHypothesis
        (insert (.str (Text.ofString pair.1)) pair.2 entries)
      rw [first] at later
      rw [List.reverse_cons, List.lookup_append, Option.or_assoc]
      exact later

end Entries

end PickleGraph
