import Mathlib.Data.Fintype.Card
import PickleGraph.Dtype.OfRecord
import PickleGraph.Proofs.Heap.Object

/-!
# Types inside each other

The depth of a conversion counts the records inside each other, and where it is
used up the conversion gives up. A larger depth changes no other outcome. Each
depth at which the outcome still changes does so at a record of its own, so all
depths above the number of objects give the same, and the conversion is described
by its parts.
-/

namespace PickleGraph

open Actions

/-! ## Giving up -/

/-- The second outcome is the first one, unless that has given up. -/
def Supersedes {α : Type} (second first : Except Failure α) : Prop :=
  first = .error (.refused .unimplemented) ∨ second = first

namespace Supersedes

variable {α β : Type}

theorem refl (outcome : Except Failure α) : Supersedes outcome outcome :=
  .inr rfl

theorem trans {third second first : Except Failure α}
    (late : Supersedes third second) (early : Supersedes second first) :
    Supersedes third first := by
  rcases early with gaveUp | rfl
  · exact .inl gaveUp
  · exact late

theorem bind {second first : Except Failure α}
    {further next : α → Except Failure β}
    (supersedes : Supersedes second first)
    (rest : ∀ value, Supersedes (further value) (next value)) :
    Supersedes (second >>= further) (first >>= next) := by
  rcases supersedes with gaveUp | rfl
  · exact .inl (congrArg (· >>= next) gaveUp)
  · cases second with
    | error failure => exact .inr rfl
    | ok value => exact rest value

theorem mapM {further next : α → Except Failure β}
    (each : ∀ item, Supersedes (further item) (next item)) (items : List α) :
    Supersedes (items.mapM further) (items.mapM next) := by
  induction items with
  | nil => exact .refl _
  | cons item rest inductionHypothesis =>
      rw [List.mapM_cons, List.mapM_cons]
      exact .bind (each item) fun _ => .bind inductionHypothesis fun _ =>
        .refl _

end Supersedes

namespace Heap

variable {heap : Heap}

section Conversion

variable {further convert : Value → Except Failure Dtype}
  (supersedes : ∀ value, Supersedes (further value) (convert value))

include supersedes

theorem supersedes_structType (record : Record) (names : Value) :
    Supersedes (heap.structType further record names)
      (heap.structType convert record names) := by
  have field : ∀ fields name,
      Supersedes (heap.fieldOfRecord further fields name)
        (heap.fieldOfRecord convert fields name) := by
    intro fields name
    refine .bind (.refl _) fun item => .bind (.refl _) fun pair => ?_
    exact .bind (supersedes pair.1) fun _ => .refl _
  unfold structType
  refine .bind (.refl _) fun hasFields => ?_
  dsimp only
  split
  all_goals
    refine .bind (.refl _) fun fields => ?_
    refine .bind (.refl _) fun listed => ?_
    refine .bind (.mapM (fun name => ?_) _) fun found => .refl _
    split
    · exact .refl _
    · exact field _ name

theorem supersedes_ofRecord (record : Record) :
    Supersedes (convertDtype.ofRecord heap further record)
      (convertDtype.ofRecord heap convert record) := by
  unfold convertDtype.ofRecord
  dsimp only
  repeat' first
    | exact .refl _
    | exact .bind (supersedes _) fun _ => .refl _
    | exact supersedes_structType supersedes record _
    | refine .bind (.refl _) fun _ => ?_
    | split

end Conversion

/-! ## More depth -/

theorem supersedes_convertDtype (depth : Nat) (value : Value) :
    Supersedes (heap.convertDtype (depth + 1) value)
      (heap.convertDtype depth value) := by
  induction depth generalizing value with
  | zero => exact .inl rfl
  | succ depth inductionHypothesis =>
      unfold convertDtype
      split
      · split
        · exact supersedes_ofRecord inductionHypothesis _
        · exact .refl _
      · exact .refl _

theorem supersedes_of_le {depth larger : Nat} (le : depth ≤ larger)
    (value : Value) :
    Supersedes (heap.convertDtype larger value)
      (heap.convertDtype depth value) := by
  induction le with
  | refl => exact .refl _
  | step _ inductionHypothesis =>
      exact (supersedes_convertDtype _ value).trans inductionHypothesis

/-- What an address stands for changes with this depth. -/
def Changes (heap : Heap) (depth : Nat) (address : Address) : Prop :=
  heap.convertDtype (depth + 1) (.object address) ≠
    heap.convertDtype depth (.object address)

/-- An outcome that changes is one that has given up. -/
theorem Changes.gaveUp {depth : Nat} {address : Address}
    (changes : heap.Changes depth address) :
    heap.convertDtype depth (.object address) =
      .error (.refused .unimplemented) :=
  (supersedes_convertDtype depth _).resolve_right changes

/-- It changes once. -/
theorem Changes.not_lt {early late : Nat} {address : Address}
    (changes : heap.Changes early address)
    (changesToo : heap.Changes late address) : ¬ early < late := by
  intro isLess
  have gaveUp : heap.convertDtype (early + 1) (.object address) =
      .error (.refused .unimplemented) := by
    have later : Supersedes (heap.convertDtype late (.object address))
        (heap.convertDtype (early + 1) (.object address)) :=
      supersedes_of_le isLess _
    rcases later with stillGone | kept
    · exact stillGone
    · exact kept.symm.trans changesToo.gaveUp
  exact changes (gaveUp.trans changes.gaveUp.symm)

theorem Changes.depth_eq {depth other : Nat} {address : Address}
    (changes : heap.Changes depth address)
    (changesToo : heap.Changes other address) : depth = other := by
  have notLess := changes.not_lt changesToo
  have notGreater := changesToo.not_lt changes
  omega

theorem lt_size_of_record? {value : Value} {address : Address}
    {record : Record} (found : heap.record? value = some (address, record)) :
    value = .object address ∧ address < heap.objects.size := by
  unfold record? at found
  split at found
  · next place =>
      split at found
      · next here =>
          cases found
          exact ⟨rfl, lt_size_of_get here nofun⟩
      · cases found
  · cases found

/-- What changes with a depth is a record, and something that it holds changes
with the depth below. -/
theorem exists_changes {depth : Nat} {value : Value}
    (changes : heap.convertDtype (depth + 2) value ≠
      heap.convertDtype (depth + 1) value) :
    ∃ address, address < heap.objects.size ∧
      heap.Changes (depth + 1) address ∧
      ∃ inner, heap.convertDtype (depth + 1) inner ≠
        heap.convertDtype depth inner := by
  cases found : heap.record? value with
  | none =>
      refine absurd ?_ changes
      unfold convertDtype
      rw [found]
  | some pair =>
      obtain ⟨address, record⟩ := pair
      obtain ⟨rfl, inHeap⟩ := lt_size_of_record? found
      refine ⟨address, inHeap, changes, ?_⟩
      by_contra nothing
      have same : heap.convertDtype (depth + 1) = heap.convertDtype depth :=
        funext fun inner => by
          by_contra differ
          exact nothing ⟨inner, differ⟩
      refine changes ?_
      rw [convertDtype, convertDtype, same]

/-- If anything changes with a depth, a record changes with every depth up to
it. -/
theorem exists_changes_of_le {depth : Nat} {value : Value}
    (changes : heap.convertDtype (depth + 2) value ≠
      heap.convertDtype (depth + 1) value)
    (smaller : Nat) (le : smaller ≤ depth) :
    ∃ address, address < heap.objects.size ∧
      heap.Changes (smaller + 1) address := by
  obtain ⟨address, inHeap, here, inner, below⟩ := exists_changes changes
  induction depth generalizing value address inner with
  | zero =>
      obtain rfl := Nat.le_zero.mp le
      exact ⟨address, inHeap, here⟩
  | succ depth inductionHypothesis =>
      rcases Nat.eq_or_lt_of_le le with rfl | isLess
      · exact ⟨address, inHeap, here⟩
      · obtain ⟨next, nextInHeap, nextHere, further, belowNext⟩ :=
          exists_changes below
        exact inductionHypothesis below (Nat.le_of_lt_succ isLess) next
          nextInHeap nextHere further belowNext

/-- All depths above the number of objects give the same. -/
theorem convertDtype_succ {depth : Nat}
    (enough : heap.objects.size < depth) :
    heap.convertDtype (depth + 1) = heap.convertDtype depth := by
  funext value
  by_contra changes
  obtain ⟨depth, rfl⟩ := Nat.exists_eq_succ_of_ne_zero
    (Nat.ne_zero_of_lt enough)
  have each : ∀ smaller : Fin (depth + 1),
      ∃ address : Fin heap.objects.size,
        heap.Changes (smaller.val + 1) address.val := by
    intro smaller
    obtain ⟨address, inHeap, here⟩ := exists_changes_of_le changes
      smaller.val (Nat.le_of_lt_succ smaller.isLt)
    exact ⟨⟨address, inHeap⟩, here⟩
  choose place here using each
  have injective : Function.Injective place := by
    intro first second same
    have depths := (here first).depth_eq (same ▸ here second)
    exact Fin.ext (Nat.succ.inj depths)
  have few := Fintype.card_le_of_injective place injective
  rw [Fintype.card_fin, Fintype.card_fin] at few
  omega

theorem convertDtype_of_le {depth : Nat}
    (enough : heap.objects.size < depth) :
    heap.convertDtype depth = heap.toDtype := by
  induction enough with
  | refl => rfl
  | step enough inductionHypothesis =>
      exact (convertDtype_succ enough).trans inductionHypothesis

/-- What a value stands for is found from what its parts stand for. -/
theorem toDtype_eq (heap : Heap) (value : Value) :
    heap.toDtype value =
      match heap.record? value with
      | some (_, record) =>
          if record.kind = .dtype then
            convertDtype.ofRecord heap heap.toDtype record
          else
            .error (.refused .wrongType)
      | none => liftM (heap.dtypeOf value) := by
  have settled : heap.toDtype =
      heap.convertDtype (heap.objects.size + 1 + 1) :=
    (convertDtype_of_le (by omega)).symm
  rw [settled, convertDtype, ← settled]
  rfl

end Heap

end PickleGraph
