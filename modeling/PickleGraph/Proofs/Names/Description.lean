import PickleGraph.Proofs.Names.Code
import PickleGraph.Proofs.Names.Heap
import PickleGraph.Value.Description

/-!
# Descriptions under other names

The description of a value shows the names of the types that the value leads to,
and shows a reference by a word that no code of a type has. A description
without such a word is the same under other names.
-/

namespace PickleGraph

open Actions

/-! ## Parts of texts -/

theorem Text.HoldsReference.of_infix {part text : Text}
    (holds : part.HoldsReference) (isPart : part <:+: text) :
    text.HoldsReference :=
  List.IsInfix.trans holds isPart

namespace Notation

theorem infix_separated {part : Text} {parts : List Text}
    (member : part ∈ parts) : part <:+: separated parts := by
  induction parts with
  | nil => cases member
  | cons first rest inductionHypothesis =>
      cases rest with
      | nil =>
          rw [List.mem_singleton.mp member]
          exact ⟨[], [], by simp [separated]⟩
      | cons second others =>
          unfold separated at inductionHypothesis ⊢
          rw [List.intercalate_cons_cons]
          rcases List.mem_cons.mp member with rfl | later
          · rw [List.append_assoc]
            exact (List.prefix_append _ _).isInfix
          · exact (inductionHypothesis later).trans
              (List.suffix_append _ _).isInfix

theorem infix_flatten {part text : Text} {parts : List Text}
    (isPart : part <:+: text) (member : text ∈ parts) :
    part <:+: parts.flatten :=
  isPart.trans (List.infix_of_mem_flatten member)

theorem infix_list {part : Text} {parts : List Text}
    (member : part ∈ parts) : part <:+: list parts :=
  infix_flatten (infix_separated member) (by simp)

theorem infix_braced {part : Text} {parts : List Text}
    (member : part ∈ parts) : part <:+: braced parts :=
  infix_flatten (infix_separated member) (by simp)

theorem infix_tuple {part : Text} {parts : List Text}
    (member : part ∈ parts) : part <:+: tuple parts := by
  unfold tuple
  split
  · next single =>
      rw [List.mem_singleton.mp member]
      exact List.infix_of_mem_flatten (by simp)
  · exact infix_flatten (infix_separated member) (by simp)

theorem infix_pair_left (key value : Text) : key <:+: pair key value :=
  List.infix_of_mem_flatten (by simp)

theorem infix_pair_right (key value : Text) : value <:+: pair key value :=
  List.infix_of_mem_flatten (by simp)

end Notation

/-! ## Descriptions of values -/

namespace Value

variable {object other : Address → Text}

mutual

theorem describe_congr
    (same : ∀ address, ¬ (object address).HoldsReference →
      other address = object address)
    (value : Value) (unnamed : ¬ (value.describe object).HoldsReference) :
    value.describe other = value.describe object := by
  cases value with
  | tuple items =>
      have parts := describeAll_congr same items fun part member holds =>
        unnamed (holds.of_infix (Notation.infix_tuple member))
      rw [describe, describe, parts]
  | frozenset members =>
      cases members with
      | nil => rfl
      | cons first rest =>
          have parts := describeAll_congr same (first :: rest)
            fun part member holds => unnamed (holds.of_infix
              (Notation.infix_flatten (Notation.infix_braced member)
                (by simp)))
          rw [describe, describe, parts]
          · simp
          · simp
  | object address => exact same address unnamed
  | _ => rfl

theorem describeAll_congr
    (same : ∀ address, ¬ (object address).HoldsReference →
      other address = object address)
    (items : List Value)
    (unnamed : ∀ part ∈ describe.describeAll object items,
      ¬ part.HoldsReference) :
    describe.describeAll other items = describe.describeAll object items := by
  cases items with
  | nil => rfl
  | cons item rest =>
      rw [describe.describeAll, List.forall_mem_cons] at unnamed
      rw [describe.describeAll, describe.describeAll,
        describe_congr same item unnamed.1,
        describeAll_congr same rest unnamed.2]

end

end Value

namespace Heap

variable (naming : Naming) (heap : Heap)

theorem holdsReference_describe (reference : TypeRef) :
    reference.describe.HoldsReference :=
  List.infix_of_mem_flatten (by simp)

section Inside

variable {inside other : Value → Text}
variable (same : ∀ value, ¬ (inside value).HoldsReference →
  other value = inside value)

include same

theorem map_inside_congr {values : List Value}
    (unnamed : ∀ value ∈ values, ¬ (inside value).HoldsReference) :
    values.map other = values.map inside :=
  List.map_congr_left fun value member => same value (unnamed value member)

/-- Both parts of an entry stand in what is shown of it. -/
theorem map_entries_congr (form : Text → Text → Text)
    (left : ∀ key value, key <:+: form key value)
    (right : ∀ key value, value <:+: form key value)
    (entries : List (Value × Value))
    (unnamed : ∀ part ∈ entries.map fun entry =>
        form (inside entry.1) (inside entry.2),
      ¬ part.HoldsReference) :
    (entries.map fun entry => form (other entry.1) (other entry.2)) =
      entries.map fun entry => form (inside entry.1) (inside entry.2) := by
  refine List.map_congr_left fun entry member => ?_
  have plain := unnamed _ (List.mem_map_of_mem member)
  rw [same entry.1 fun holds => plain (holds.of_infix (left _ _)),
    same entry.2 fun holds => plain (holds.of_infix (right _ _))]

end Inside

/-- An object whose description shows no reference has the same description
under other names. -/
theorem describeObject_renamed (depth : Nat) (outer : List Address)
    (address : Address)
    (unnamed :
      ¬ (heap.describeObject depth outer address).HoldsReference) :
    (heap.renamed naming).describeObject depth outer address =
      heap.describeObject depth outer address := by
  induction depth generalizing outer address with
  | zero => rfl
  | succ depth inductionHypothesis =>
      rw [describeObject] at unnamed
      rw [describeObject, describeObject, get_renamed]
      have inner := Value.describe_congr
        (inductionHypothesis (address :: outer))
      generalize Value.describe (heap.describeObject depth
        (address :: outer)) = inside at unnamed inner
      generalize Value.describe ((heap.renamed naming).describeObject depth
        (address :: outer)) = renamedInside at inner
      cases here : heap.get address with
      | list items =>
          rw [here] at unnamed
          simp only [Object.named] at unnamed ⊢
          split
          · rfl
          · next outside =>
              rw [if_neg outside] at unnamed
              rw [map_inside_congr inner fun value member holds => unnamed
                (holds.of_infix (Notation.infix_list
                  (List.mem_map_of_mem member)))]
      | dict ordered entries =>
          rw [here] at unnamed
          cases ordered with
          | false =>
              simp only [Object.named] at unnamed ⊢
              split
              · rfl
              · next outside =>
                  rw [if_neg outside] at unnamed
                  have same := map_entries_congr inner Notation.pair
                    Notation.infix_pair_left Notation.infix_pair_right
                    entries fun part member holds => unnamed
                      (holds.of_infix (Notation.infix_braced member))
                  rw [same]
          | true =>
              cases entries with
              | nil => rfl
              | cons first rest =>
                  simp only [Object.named] at unnamed ⊢
                  split
                  · rfl
                  · next outside =>
                      rw [if_neg outside] at unnamed
                      have same := map_entries_congr inner
                        (fun key value => Notation.tuple [key, value])
                        (fun _ _ => Notation.infix_tuple (by simp))
                        (fun _ _ => Notation.infix_tuple (by simp))
                        (first :: rest) fun part member holds => unnamed
                          (holds.of_infix (Notation.infix_flatten
                            (Notation.infix_list member) (by simp)))
                      rw [same]
      | set members =>
          rw [here] at unnamed
          cases members with
          | nil => rfl
          | cons first rest =>
              simp only [Object.named] at unnamed ⊢
              split
              · rfl
              · next outside =>
                  rw [if_neg outside] at unnamed
                  rw [map_inside_congr inner fun value member holds =>
                    unnamed (holds.of_infix (Notation.infix_braced
                      (List.mem_map_of_mem member)))]
      | record record =>
          simp [Object.named, Record.describe]
      | typeRef reference =>
          rw [here] at unnamed
          exact absurd (holdsReference_describe reference) unnamed
      | _ => rfl

/-! ## Quotations -/

@[simp] theorem shown_named (object : Object) (key? : Option TypeKey) :
    (object.named key?).shown = object.shown := by
  cases object <;> rfl

theorem objectIsShowable_renamed (depth : Nat) :
    (heap.renamed naming).objectIsShowable depth =
      heap.objectIsShowable depth := by
  induction depth with
  | zero => rfl
  | succ depth inductionHypothesis =>
      funext outer address
      rw [objectIsShowable, objectIsShowable, inductionHypothesis,
        get_renamed, shown_named]

@[simp] theorem isShowable_renamed (value : Value) :
    (heap.renamed naming).isShowable value = heap.isShowable value := by
  rw [isShowable, isShowable, size_renamed, objectIsShowable_renamed]

/-- A value in plain words without a reference is worded the same. -/
theorem wording_renamed {value : Value} {text : Text}
    (worded : heap.wording value = .ok text)
    (unnamed : ¬ text.HoldsReference) :
    (heap.renamed naming).wording value = .ok text := by
  have quoted : heap.quote value = .ok text →
      (heap.renamed naming).quote value = .ok text := by
    intro quoted
    unfold quote at quoted ⊢
    rw [isShowable_renamed]
    split at quoted
    · next showable =>
        cases quoted
        rw [if_pos showable]
        refine congrArg Except.ok ?_
        unfold describe at unnamed ⊢
        rw [size_renamed]
        exact Value.describe_congr
          (describeObject_renamed naming heap _ _) value unnamed
    · cases quoted
  cases value with
  | str content => exact worded
  | _ => exact quoted worded

end Heap

end PickleGraph
