import PickleGraph.Proofs.Names.Construction

/-!
# Instances under other names

A reference to a type comes from an opcode. An instance takes the name of the
reference that it is made of, so where the opcode names another type, the
reference and its instances are renamed together and nothing else is.
-/

namespace PickleGraph

open Actions

/-- The place in a list of opcodes that the name of an object comes from, if it
has a name. -/
abbrev Origin := Address → Option Nat

namespace Origin

/-- The names that objects take where opcodes of the list name other types. -/
def naming (origin : Origin) (names : List (Option TypeKey)) : Naming :=
  fun address => (origin address).bind fun place => names.getD place none

/-- A new object behind the heap has this origin. -/
def adding (origin : Origin) (heap : Heap) (place? : Option Nat) : Origin :=
  fun address =>
    if address = heap.objects.size then place? else origin address

/-- Where an outcome is a result, it is the same one under other names, and every
object that is made takes its name from some opcode or keeps it. -/
def Tracks {ε α : Type} (origin : Origin) (outcome : Except ε (α × Heap))
    (other : Naming → Except ε (α × Heap)) : Prop :=
  ∀ made, outcome = .ok made → ∃ further : Origin, ∀ names,
    other (origin.naming names) =
      .ok (Heap.carry (further.naming names) made)

variable {ε ε' α : Type} {origin : Origin}

theorem Tracks.of_carries {outcome : Except ε (α × Heap)}
    {other : Naming → Except ε (α × Heap)}
    (carries : ∀ naming, Carries (Heap.carry naming) outcome (other naming)) :
    origin.Tracks outcome other :=
  fun made success => ⟨origin, fun _ => carries _ made success⟩

/-- An object is allocated under the name of its origin. -/
theorem carry_adding (origin : Origin) (heap : Heap) (object : Object)
    (place? : Option Nat) (names : List (Option TypeKey)) :
    (heap.renamed (origin.naming names)).alloc
        (object.named (place?.bind fun place => names.getD place none)) =
      Heap.carry ((origin.adding heap place?).naming names)
        (heap.alloc object) := by
  have early : heap.renamed ((origin.adding heap place?).naming names) =
      heap.renamed (origin.naming names) := by
    refine Heap.renamed_congr fun address bound => ?_
    have old : address ≠ heap.objects.size := Nat.ne_of_lt bound
    unfold naming adding
    rw [if_neg old]
  have late : (origin.adding heap place?).naming names heap.objects.size =
      place?.bind fun place => names.getD place none := by
    unfold naming adding
    rw [if_pos rfl]
  unfold Heap.carry
  rw [Heap.renamed_alloc, early, late]
  simp [Heap.alloc]

end Origin

namespace TypeRef

open Heap Origin

/-- A record takes its name from where its reference does. -/
theorem carry_newRecord (origin : Origin) (heap : Heap) (address : Address)
    (reference : TypeRef) (kind : RecordKind) (call : Call)
    (names : List (Option TypeKey)) :
    (reference.named (origin.naming names address)).newRecord kind call
        (heap.renamed (origin.naming names)) =
      carry ((origin.adding heap (origin address)).naming names)
        (reference.newRecord kind call heap) := by
  unfold newRecord
  rw [← carry_adding]
  unfold naming
  cases (origin address).bind fun place => names.getD place none <;> rfl

/-- What is made of a reference under other names. -/
abbrev Makes (origin : Origin) (heap : Heap) (address : Address)
    (make : TypeRef → Heap → Except Failure (Value × Heap)) : Prop :=
  ∀ reference, heap.get address = .typeRef reference →
    origin.Tracks (make reference heap) fun naming =>
      make (reference.named (naming address)) (heap.renamed naming)

theorem exists_of_typeRef? {heap : Heap} {type : Value}
    {reference : TypeRef} (found : heap.typeRef? type = some reference) :
    ∃ address, heap.get address = .typeRef reference ∧
      ∀ naming, (heap.renamed naming).typeRef? type =
        some (reference.named (naming address)) := by
  obtain ⟨address, rfl, here⟩ := typeRef?_eq_some_iff.mp found
  refine ⟨address, here, fun naming => ?_⟩
  rw [typeRef?_renamed, found, Option.map_some]

theorem exists_of_reconstructed {call : Call} {heap : Heap}
    {reference : TypeRef}
    (found : Constructor.reconstructed call heap = .ok reference) :
    ∃ address, heap.get address = .typeRef reference ∧
      ∀ naming, Constructor.reconstructed call (heap.renamed naming) =
        .ok (reference.named (naming address)) := by
  unfold Constructor.reconstructed at found ⊢
  obtain ⟨values, bound, found⟩ := except_bind_eq_ok_iff.mp found
  dsimp only at found
  split at found
  · next isReference =>
      cases found
      obtain ⟨address, here, same⟩ := exists_of_typeRef? isReference
      refine ⟨address, here, fun naming => ?_⟩
      rw [except_bind_of_eq_ok bound]
      dsimp only
      rw [same naming]
      rfl
  · cases found

theorem tracks_apply {origin : Origin} {heap : Heap}
    {inner : TypeRef → Heap → Except Failure (Value × Heap)}
    (innerMakes : ∀ address, Makes origin heap address inner)
    (constructor : Constructor) (call : Call) :
    origin.Tracks (constructor.apply inner call heap) fun naming =>
      constructor.apply inner call (heap.renamed naming) := by
  by_cases isReconstructor : constructor = .reconstructor
  · subst isReconstructor
    intro made success
    unfold Constructor.apply at success
    obtain ⟨_, checked, success⟩ := except_bind_eq_ok_iff.mp success
    obtain ⟨reference, found, success⟩ := except_bind_eq_ok_iff.mp success
    obtain ⟨address, here, same⟩ := exists_of_reconstructed found
    obtain ⟨further, made⟩ := innerMakes address reference here made success
    refine ⟨further, fun names => ?_⟩
    refine (except_bind_of_eq_ok checked).trans ?_
    exact (except_bind_of_eq_ok (same _)).trans (made names)
  · refine .of_carries fun naming => ?_
    refine .bind (.refl _) fun _ => ?_
    cases constructor with
    | reconstructor => exact absurd rfl isReconstructor
    | object =>
        refine .bind (.refl _) fun args => ?_
        cases args with
        | nil => exact carries_alloc naming heap fun _ => rfl
        | cons => exact .error _ _
    | set =>
        refine .bind (.mapError (Constructor.carries_membersOf naming call heap))
          fun made => ?_
        obtain ⟨members, heap⟩ := made
        exact carries_alloc naming heap fun _ => rfl
    | frozenset =>
        refine .bind (.mapError (Constructor.carries_membersOf naming call heap))
          fun made => ?_
        obtain ⟨members, heap⟩ := made
        exact .ok (Value.frozenset members, heap)
    | list =>
        refine .bind (.mapError
          (Constructor.carries_itemsOf naming _ call heap))
          fun made => ?_
        obtain ⟨items, heap⟩ := made
        exact carries_alloc naming heap fun _ => rfl
    | tuple =>
        refine .bind (.mapError
          (Constructor.carries_itemsOf naming _ call heap))
          fun made => ?_
        obtain ⟨items, heap⟩ := made
        exact .ok (Value.tuple items, heap)
    | dict | orderedDict =>
        refine .bind (.mapError
          (Constructor.carries_entriesOfCall naming call heap))
          fun made => ?_
        obtain ⟨entries, heap⟩ := made
        exact carries_alloc naming heap fun _ => rfl
    | bytes =>
        dsimp only
        rw [Octets.ofCall_renamed]
        exact .bind (.refl _) fun content => .ok (Value.bytes content, heap)
    | bytearray =>
        dsimp only
        rw [Octets.ofCall_renamed]
        refine .bind (.refl _) fun content => ?_
        exact carries_alloc naming heap fun _ => rfl
    | complex =>
        dsimp only
        rw [Complex.ofCall_renamed]
        refine .bind (.refl _) fun parts => ?_
        dsimp only [id]
        rw [carry_complex]
        exact .ok _
    | encode =>
        refine .bind (Constructor.carries_decodeCarrier naming call heap)
          fun value => ?_
        exact .ok (value, heap)
    | fromBuffer => exact Constructor.carries_arrayOfBuffer naming call heap

theorem makes_instantiateWith {origin : Origin} {heap : Heap}
    {inner : TypeRef → Heap → Except Failure (Value × Heap)}
    (innerMakes : ∀ address, Makes origin heap address inner)
    (address : Address) (call : Call) :
    Makes origin heap address fun reference heap =>
      reference.instantiateWith inner call heap := by
  intro reference here
  have records : ∀ kind, origin.Tracks (ε := Failure)
      (.ok (reference.newRecord kind call heap)) fun naming =>
        .ok ((reference.named (naming address)).newRecord kind call
          (heap.renamed naming)) := by
    rintro kind _ ⟨⟩
    exact ⟨_, fun names => congrArg Except.ok
      (carry_newRecord origin heap address reference kind call names)⟩
  unfold instantiateWith
  simp only [strategy_named]
  cases reference.strategy with
  | callable target constructor =>
      exact tracks_apply innerMakes constructor call
  | generic target kind => exact records kind
  | extension target kind argumentNames stateNames => exact records kind
  | array target layout => exact records .plain

theorem makes_instantiate (origin : Origin) (heap : Heap)
    (address : Address) (call : Call) :
    Makes origin heap address fun reference heap =>
      reference.instantiate call heap :=
  makes_instantiateWith
    (fun address => makes_instantiateWith
      (fun address reference here made success => by cases success)
      address (Call.ofArgs []))
    address call

end TypeRef

/-- An instance is made in the same way, of the same arguments, by a reference of
another name. -/
theorem Heap.tracks_instantiate (origin : Origin) (heap : Heap)
    (type : Value) (call : Call) :
    origin.Tracks (heap.instantiate type call) fun naming =>
      (heap.renamed naming).instantiate type call := by
  intro made success
  unfold Heap.instantiate at success ⊢
  split at success
  · next reference found =>
      obtain ⟨address, here, same⟩ := TypeRef.exists_of_typeRef? found
      have instantiated := mapError_eq_ok_iff.mp success
      obtain ⟨further, again⟩ := TypeRef.makes_instantiate origin heap address
        call reference here made instantiated
      refine ⟨further, fun names => ?_⟩
      dsimp only
      rw [same]
      exact mapError_eq_ok_iff.mpr (again names)
  · cases success

end PickleGraph
