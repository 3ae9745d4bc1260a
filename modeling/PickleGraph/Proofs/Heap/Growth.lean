import PickleGraph.Construction.Instance
import PickleGraph.Literal.Basic
import PickleGraph.Proofs.Heap.Object

/-!
# Growth of heaps

Values are made of new objects. A heap that has grown holds everything it held
before at the same addresses, and the new objects are of a kind that the maker
allows: only the instantiation of a type makes a record, and only the machine
itself makes a reference to a type.
-/

namespace PickleGraph

open Actions

/-- Objects that name no type: everything but records and references. -/
def Object.IsData : Object → Prop
  | .record _ | .typeRef _ => False
  | _ => True

namespace Heap

/-- A heap with further objects, all of them allowed. -/
def Grows (allowed : Object → Prop) (before after : Heap) : Prop :=
  ∃ added : List Object,
    after.objects.toList = before.objects.toList ++ added ∧
      ∀ object ∈ added, allowed object

/-- A result whose heap has grown. -/
def GrowsTo {ε α : Type}
    (allowed : Object → Prop) (before : Heap)
    (outcome : Except ε (α × Heap)) : Prop :=
  ∀ result after, outcome = .ok (result, after) →
    before.Grows allowed after

variable {allowed : Object → Prop}

namespace Grows

theorem refl (heap : Heap) : heap.Grows allowed heap :=
  ⟨[], (List.append_nil _).symm, by simp⟩

theorem trans {before middle after : Heap}
    (first : before.Grows allowed middle)
    (second : middle.Grows allowed after) :
    before.Grows allowed after := by
  obtain ⟨added, equality, areAllowed⟩ := first
  obtain ⟨others, otherEquality, othersAllowed⟩ := second
  refine ⟨added ++ others, ?_, ?_⟩
  · rw [otherEquality, equality, List.append_assoc]
  · intro object member
    rcases List.mem_append.mp member with early | late
    · exact areAllowed object early
    · exact othersAllowed object late

theorem mono {other : Object → Prop} {before after : Heap}
    (weaker : ∀ object, allowed object → other object)
    (growth : before.Grows allowed after) :
    before.Grows other after := by
  obtain ⟨added, equality, areAllowed⟩ := growth
  exact ⟨added, equality, fun object member =>
    weaker object (areAllowed object member)⟩

theorem alloc (heap : Heap) {object : Object}
    (isAllowed : allowed object) :
    heap.Grows allowed (heap.alloc object).2 :=
  ⟨[object], by simp [Heap.alloc], by simpa using isAllowed⟩

/-- The marks of numbers are no objects. -/
theorem of_objects_eq {before after : Heap}
    (same : after.objects = before.objects) :
    before.Grows allowed after :=
  ⟨[], by simp [same], by simp⟩

end Grows

@[simp] theorem objects_float (heap : Heap) (number : Binary64) :
    (heap.float number).2.objects = heap.objects := by
  unfold Heap.float
  split <;> rfl

@[simp] theorem objects_complex (heap : Heap) (real imaginary : Binary64) :
    (heap.complex real imaginary).2.objects = heap.objects := by
  unfold Heap.complex
  split <;> rfl

theorem Grows.float (heap : Heap) (number : Binary64) :
    heap.Grows allowed (heap.float number).2 :=
  .of_objects_eq (objects_float heap number)

theorem Grows.complex (heap : Heap) (real imaginary : Binary64) :
    heap.Grows allowed (heap.complex real imaginary).2 :=
  .of_objects_eq (objects_complex heap real imaginary)

/-- Values made one after the other. -/
theorem Grows.foldl {α β : Type}
    (step : β × Heap → α → β × Heap)
    (grows : ∀ (start : β × Heap) (item : α),
      start.2.Grows allowed (step start item).2)
    (items : List α) (start : β × Heap) :
    start.2.Grows allowed (items.foldl step start).2 := by
  induction items generalizing start with
  | nil => exact .refl _
  | cons item rest inductionHypothesis =>
      exact (grows start item).trans (inductionHypothesis _)

/-! ## Results -/

namespace GrowsTo

variable {ε ε' α β : Type} {before : Heap}

theorem ok {result : α} {after : Heap}
    (growth : before.Grows allowed after) :
    GrowsTo (ε := ε) allowed before (.ok (result, after)) := by
  rintro _ _ ⟨⟩
  exact growth

theorem same (result : α) :
    GrowsTo (ε := ε) allowed before (.ok (result, before)) :=
  ok (Grows.refl before)

theorem error {failure : ε} :
    GrowsTo (α := α) allowed before (.error failure) := by
  rintro _ _ ⟨⟩

theorem bind {outcome : Except ε α} {next : α → Except ε (β × Heap)}
    (grows : ∀ value, outcome = .ok value →
      GrowsTo allowed before (next value)) :
    GrowsTo allowed before (outcome >>= next) := by
  intro result after success
  obtain ⟨value, first, second⟩ := except_bind_eq_ok_iff.mp success
  exact grows value first result after second

/-- Two makers in a row. -/
theorem seq {outcome : Except ε (α × Heap)}
    {next : α × Heap → Except ε (β × Heap)}
    (first : GrowsTo allowed before outcome)
    (second : ∀ value middle,
      GrowsTo allowed middle (next (value, middle))) :
    GrowsTo allowed before (outcome >>= next) := by
  intro result after success
  obtain ⟨⟨value, middle⟩, made, rest⟩ :=
    except_bind_eq_ok_iff.mp success
  exact (first value middle made).trans
    (second value middle result after rest)

theorem mapError {outcome : Except ε (α × Heap)} (change : ε → ε')
    (grows : GrowsTo allowed before outcome) :
    GrowsTo allowed before (outcome.mapError change) := by
  intro result after success
  exact grows result after (mapError_eq_ok_iff.mp success)

/-- Makers in a row, one for each item. -/
theorem foldlM {step : β × Heap → α → Except ε (β × Heap)}
    (grows : ∀ (start : β × Heap) (item : α),
      GrowsTo allowed start.2 (step start item))
    (items : List α) (start : β × Heap) :
    GrowsTo allowed start.2 (items.foldlM step start) := by
  induction items generalizing start with
  | nil => exact same _
  | cons item rest inductionHypothesis =>
      rw [List.foldlM_cons]
      exact .seq (grows start item) fun _ _ => inductionHypothesis _

end GrowsTo

/-! ## Items of values -/

theorem growsTo_iterateArray (array : NdArray) (heap : Heap) :
    GrowsTo Object.IsData heap (array.iterate heap) := by
  unfold NdArray.iterate
  split
  · exact .error
  · split
    · exact .same _
    · exact .same _
  · refine .ok (Grows.foldl _ ?_ _ _)
    intro start content
    exact .alloc start.2 trivial

theorem grows_floats (numbers : List Binary64) (heap : Heap) :
    heap.Grows Object.IsData (heap.floats numbers).2 := by
  refine Grows.foldl _ ?_ _ _
  intro start number
  exact .float start.2 number

theorem growsTo_iterateView (heap : Heap) (view : MemoryView) :
    GrowsTo Object.IsData heap (heap.iterateView view) := by
  unfold Heap.iterateView
  split
  · exact .error
  · split
    · dsimp only
      split
      · exact .same _
      · exact .same _
      · exact .same _
      · split
        · exact .ok (grows_floats _ heap)
        · exact .error
      · exact .error
    · exact .same _
  · exact .error

theorem growsTo_iterate (heap : Heap) (value : Value) :
    GrowsTo Object.IsData heap (heap.iterate value) := by
  unfold Heap.iterate
  split
  · exact .same _
  · exact .same _
  · exact .same _
  · exact .same _
  · unfold Heap.iterateObject
    split
    · exact .same _
    · exact .same _
    · exact .same _
    · exact .same _
    · exact growsTo_iterateView heap _
    · exact .error
    · exact growsTo_iterateArray _ heap
    · exact .error
    · exact .error
  · exact .error

theorem growsTo_iterateChecked
    (heap : Heap) (check : Value → Except Refusal Unit) (value : Value) :
    GrowsTo Object.IsData heap (heap.iterateChecked check value) := by
  unfold Heap.iterateChecked
  split
  · exact .bind fun _ _ => .error
  · refine .seq (growsTo_iterate heap value) fun items middle => ?_
    exact .bind fun _ _ => .same _

/-! ## Arrays of records -/

theorem grows_elementValue
    (heap : Heap) (type : Dtype) (data : Bytes) :
    heap.Grows Object.IsData (heap.elementValue type data).2 := by
  unfold Heap.elementValue
  split
  · exact .float heap _
  · exact .complex heap _ _
  · exact .refl heap
  · exact .refl heap

theorem grows_elementValues (heap : Heap) (array : NdArray) :
    heap.Grows Object.IsData (heap.elementValues array).2 := by
  unfold Heap.elementValues
  split
  · exact .refl heap
  · refine Grows.foldl _ ?_ _ _
    intro start element
    exact grows_elementValue start.2 array.type element

theorem growsTo_spread (heap : Heap) (count : Nat) (value : Value) :
    GrowsTo Object.IsData heap (heap.spread count value) := by
  unfold Heap.spread
  split
  · split
    · exact .ok (grows_elementValues heap _)
    · exact .error
  · split
    · exact .same _
    · split
      · exact .same _
      · exact .same _
    · exact .same _

theorem growsTo_arrayOfRecord (heap : Heap) (record : Record) :
    GrowsTo Object.IsData heap (heap.arrayOfRecord record) := by
  unfold Heap.arrayOfRecord
  refine .seq (.mapError _ (growsTo_iterate heap _)) fun extents heap => ?_
  dsimp only
  refine .bind fun type _ => .bind fun firstFastest _ => ?_
  split
  · refine .bind fun count _ => ?_
    refine .seq (.mapError _ (growsTo_spread _ _ _)) fun values heap => ?_
    exact .bind fun _ _ => .bind fun _ _ => .same _
  · refine .bind fun data _ => .bind fun count _ => .bind fun length _ => ?_
    split
    · exact .error
    · exact .bind fun _ _ => .bind fun _ _ => .bind fun _ _ => .same _

end Heap

/-! ## Literals -/

namespace Literal

open Heap

theorem growsTo_numberValue (number : Option Number) (heap : Heap) :
    GrowsTo Object.IsData heap (numberValue number heap) := by
  unfold numberValue
  split
  · exact .same _
  · exact .ok (.float heap _)
  · exact .ok (.complex heap _ _)
  · exact .error

theorem growsTo_complexValue
    (combine : Binary64 → Binary64 → Binary64) (left right : Literal)
    (heap : Heap) :
    GrowsTo Object.IsData heap (complexValue combine left right heap) := by
  unfold complexValue
  split
  · exact .bind fun _ _ => .ok (.complex heap _ _)
  · exact .error

theorem growsTo_setValue (members : List Value) (heap : Heap) :
    GrowsTo Object.IsData heap (setValue members heap) :=
  .bind fun _ _ => .ok (.alloc heap trivial)

mutual

theorem growsTo_evaluate (literal : Literal) (heap : Heap) :
    GrowsTo Object.IsData heap (evaluate literal heap) := by
  cases literal with
  | noneValue | ellipsis | bool | str | bytes => exact .same _
  | tuple items =>
      rw [evaluate]
      exact .seq (growsTo_evaluateAll items heap) fun _ _ => .same _
  | list items =>
      rw [evaluate]
      exact .seq (growsTo_evaluateAll items heap) fun _ heap =>
        .ok (.alloc heap trivial)
  | set members =>
      rw [evaluate]
      exact .seq (growsTo_evaluateAll members heap) fun members heap =>
        growsTo_setValue members heap
  | dict entries =>
      rw [evaluate]
      exact .seq (growsTo_evaluateEntries entries heap) fun _ heap =>
        .bind fun _ _ => .ok (.alloc heap trivial)
  | emptySet => exact .ok (.alloc heap trivial)
  | setType => exact .error
  | sum left right => exact growsTo_complexValue _ left right heap
  | difference left right => exact growsTo_complexValue _ left right heap
  | int | float | imaginary | plus | minus =>
      simp only [evaluate]
      exact growsTo_numberValue _ heap

theorem growsTo_evaluateAll (items : List Literal) (heap : Heap) :
    GrowsTo Object.IsData heap (evaluate.evaluateAll items heap) := by
  cases items with
  | nil => exact .same _
  | cons item rest =>
      rw [evaluate.evaluateAll]
      refine .seq (growsTo_evaluate item heap) fun value heap => ?_
      exact .seq (growsTo_evaluateAll rest heap) fun _ _ => .same _

theorem growsTo_evaluateEntries
    (entries : List (Literal × Literal)) (heap : Heap) :
    GrowsTo Object.IsData heap (evaluate.evaluateEntries entries heap) := by
  cases entries with
  | nil => exact .same _
  | cons entry rest =>
      obtain ⟨key, value⟩ := entry
      rw [evaluate.evaluateEntries]
      refine .seq (growsTo_evaluate key heap) fun key heap => ?_
      refine .seq (growsTo_evaluate value heap) fun value heap => ?_
      exact .seq (growsTo_evaluateEntries rest heap) fun _ _ => .same _

end

end Literal

/-! ## Constructors -/

namespace Constructor

open Heap

theorem growsTo_ofLentBuffer
    (buffer type shape order : Value) (heap : Heap) :
    GrowsTo Object.IsData heap
      (Payload.ofLentBuffer buffer type shape order heap) := by
  unfold Payload.ofLentBuffer
  refine .bind fun type _ => .bind fun buffer _ => ?_
  dsimp only
  split
  · next result rebuilt =>
      have grows : GrowsTo Object.IsData heap (.ok (ε := Refusal) result) := by
        rw [← rebuilt]
        refine .bind fun line _ => ?_
        refine .seq (growsTo_iterate heap shape) fun extents heap => ?_
        exact .bind fun _ _ => .bind fun _ _ => .bind fun _ _ => .same _
      exact .ok (grows _ _ rfl)
  · exact .bind fun _ _ => .error
  · exact .bind fun _ _ => .error
  · exact .error

theorem growsTo_itemsOf
    (check : Value → Except Refusal Unit) (call : Call) (heap : Heap) :
    GrowsTo Object.IsData heap (itemsOf check call heap) := by
  refine .bind fun only _ => ?_
  split
  · exact .same _
  · exact growsTo_iterateChecked heap check _

theorem growsTo_membersOf (call : Call) (heap : Heap) :
    GrowsTo Object.IsData heap (membersOf call heap) :=
  .seq (growsTo_itemsOf heap.checkHashable call heap) fun _ _ => .same _

theorem growsTo_entriesOfPairs (pairs : List Value) (heap : Heap) :
    GrowsTo Object.IsData heap (entriesOfPairs pairs heap) := by
  refine .foldlM (fun start pair => ?_) pairs ([], heap)
  refine .seq (growsTo_iterate start.2 pair) fun items heap => ?_
  dsimp only
  split
  · exact .bind fun _ _ => .same _
  · exact .error

theorem growsTo_entriesOfValue (value : Value) (heap : Heap) :
    GrowsTo Object.IsData heap (entriesOfValue value heap) := by
  unfold entriesOfValue
  split
  · exact .same _
  · exact .same _
  · exact .seq (growsTo_iterate heap value) growsTo_entriesOfPairs

theorem growsTo_entriesOfCall (call : Call) (heap : Heap) :
    GrowsTo Object.IsData heap (entriesOfCall call heap) := by
  refine .seq ?_ fun _ _ => .same _
  unfold entriesOfArgs
  split
  · exact .same _
  · exact growsTo_entriesOfValue _ heap
  · exact .error

theorem growsTo_arrayOfBuffer (call : Call) (heap : Heap) :
    GrowsTo Object.IsData heap (arrayOfBuffer call heap) := by
  refine .bind fun values _ => ?_
  dsimp only
  exact .seq (growsTo_ofLentBuffer _ _ _ _ heap) fun _ heap =>
    .ok (.alloc heap trivial)

variable {allowed : Object → Prop}

theorem reconstructed_mem
    {call : Call} {heap : Heap} {reference : TypeRef}
    (found : reconstructed call heap = .ok reference) :
    ∃ address, heap.get address = .typeRef reference := by
  obtain ⟨values, _, found⟩ := except_bind_eq_ok_iff.mp found
  dsimp only at found
  split at found
  · next other isReference =>
      cases found
      obtain ⟨address, _, here⟩ := typeRef?_eq_some_iff.mp isReference
      exact ⟨address, here⟩
  · cases found

/-- A constructor makes data, unless it is asked for an instance of a type that
the heap refers to. -/
theorem growsTo_apply
    (data : ∀ object : Object, object.IsData → allowed object)
    {instantiate : TypeRef → Heap → Except Failure (Value × Heap)}
    {heap : Heap}
    (inner : ∀ reference address, heap.get address = .typeRef reference →
      GrowsTo allowed heap (instantiate reference heap))
    (constructor : Constructor) (call : Call) :
    GrowsTo allowed heap (apply instantiate constructor call heap) := by
  have weaken : ∀ {ε α : Type} {before : Heap}
      {outcome : Except ε (α × Heap)},
      GrowsTo Object.IsData before outcome →
        GrowsTo allowed before outcome :=
    fun grows result after success => (grows result after success).mono data
  refine .bind fun _ _ => ?_
  cases constructor with
  | object =>
      refine .bind fun args _ => ?_
      split
      · exact weaken (.ok (.alloc heap trivial))
      · exact .error
  | set =>
      exact weaken (.seq (.mapError _ (growsTo_membersOf call heap))
        fun _ heap => .ok (.alloc heap trivial))
  | frozenset =>
      exact weaken (.seq (.mapError _ (growsTo_membersOf call heap))
        fun _ _ => .same _)
  | list =>
      exact weaken (.seq (.mapError _ (growsTo_itemsOf _ call heap))
        fun _ heap => .ok (.alloc heap trivial))
  | tuple =>
      exact weaken (.seq (.mapError _ (growsTo_itemsOf _ call heap))
        fun _ _ => .same _)
  | dict | orderedDict =>
      exact weaken (.seq (.mapError _ (growsTo_entriesOfCall call heap))
        fun _ heap => .ok (.alloc heap trivial))
  | bytes => exact .bind fun _ _ => .same _
  | bytearray => exact weaken (.bind fun _ _ => .ok (.alloc heap trivial))
  | complex => exact .bind fun _ _ => .ok (.complex heap _ _)
  | encode => exact .bind fun _ _ => .same _
  | reconstructor =>
      refine .bind fun reference found => ?_
      obtain ⟨address, here⟩ := reconstructed_mem found
      exact inner reference address here
  | fromBuffer => exact weaken (growsTo_arrayOfBuffer call heap)

end Constructor

/-! ## Instances -/

/-- A type that makes records makes a new one. -/
theorem TypeRef.instantiate_of_kind {reference : TypeRef} {kind : RecordKind}
    (isKind : reference.strategy.recordKind? = some kind) (call : Call)
    (heap : Heap) :
    reference.instantiate call heap =
      .ok (reference.newRecord kind call heap) := by
  unfold instantiate instantiateWith
  unfold Strategy.recordKind? at isKind
  split at isKind <;> simp_all

/-- An instance is data or a record, or what is made of a reference that the heap
holds. -/
theorem TypeRef.growsTo_instantiateWith {allowed : Object → Prop}
    (data : ∀ object : Object, object.IsData → allowed object)
    {inner : TypeRef → Heap → Except Failure (Value × Heap)} {heap : Heap}
    (innerGrows : ∀ asked address, heap.get address = .typeRef asked →
      Heap.GrowsTo allowed heap (inner asked heap))
    {reference : TypeRef}
    (makes : ∀ kind, reference.strategy.recordKind? = some kind →
      ∀ call, heap.Grows allowed (reference.newRecord kind call heap).2)
    (call : Call) :
    Heap.GrowsTo allowed heap (reference.instantiateWith inner call heap) := by
  unfold instantiateWith
  cases strategy : reference.strategy with
  | callable target constructor =>
      exact Constructor.growsTo_apply data innerGrows _ _
  | generic target kind => exact .ok (makes _ (by rw [strategy]; rfl) call)
  | extension target kind argumentNames stateNames =>
      exact .ok (makes _ (by rw [strategy]; rfl) call)
  | array target layout => exact .ok (makes _ (by rw [strategy]; rfl) call)

/-- Instances are new objects, whatever the heap holds. -/
theorem Heap.growsTo_instance (heap : Heap) (type : Value) (call : Call) :
    heap.GrowsTo (fun _ => True) (heap.instantiate type call) := by
  have makes : ∀ (reference : TypeRef) kind,
      reference.strategy.recordKind? = some kind →
        ∀ call, heap.Grows (fun _ => True)
          (reference.newRecord kind call heap).2 :=
    fun _ _ _ _ => .alloc heap trivial
  have bare : ∀ reference : TypeRef,
      heap.GrowsTo (fun _ => True) (reference.instantiateBare heap) :=
    fun reference => TypeRef.growsTo_instantiateWith (fun _ _ => trivial)
      (fun _ _ _ => .error) (makes reference) _
  unfold Heap.instantiate
  split
  · next reference _ =>
      exact .mapError _ (TypeRef.growsTo_instantiateWith
        (fun _ _ => trivial) (fun asked _ _ => bare asked) (makes reference)
        call)
  · exact .error

end PickleGraph
