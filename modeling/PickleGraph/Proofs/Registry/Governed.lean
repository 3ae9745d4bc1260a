import PickleGraph.Proofs.Heap.Growth
import PickleGraph.Registry

/-!
# Heaps under a registry

A registry governs a heap if every reference to a type and every record of the
heap carries the strategy that the registry binds to its name. Nothing that is
made or changed in a governed heap takes it out of the hands of the registry.
-/

namespace PickleGraph

variable {registry : Registry}

/-- A record of a bound type: it carries the strategy that is bound and has the
target and the kind of this strategy. -/
structure Record.IsBound (registry : Registry) (record : Record) :
    Prop where
  strategy :
    registry.resolve ⟨record.module, record.name⟩ = .ok record.strategy
  target : record.target = record.strategy.target
  kind : record.strategy.recordKind? = some record.kind

/-- A reference to a bound type. -/
def TypeRef.IsBound (registry : Registry) (reference : TypeRef) : Prop :=
  registry.resolve ⟨reference.module, reference.name⟩ =
    .ok reference.strategy

def Object.IsBound (registry : Registry) : Object → Prop
  | .record content => content.IsBound registry
  | .typeRef reference => reference.IsBound registry
  | _ => True

/-- All records and references of the heap are of bound types. -/
def Heap.IsGoverned (registry : Registry) (heap : Heap) : Prop :=
  ∀ address, (heap.get address).IsBound registry

theorem Object.IsData.isBound {object : Object} (isData : object.IsData) :
    object.IsBound registry := by
  cases object with
  | record record => exact absurd isData id
  | typeRef reference => exact absurd isData id
  | _ => trivial

/-- The constructors of plain values make no records. -/
theorem Record.IsBound.strategy_ne_callable {record : Record}
    (isBound : record.IsBound registry) (target : Text)
    (function : Constructor) :
    record.strategy ≠ .callable target function := by
  intro isCallable
  have kind := isBound.kind
  rw [isCallable] at kind
  cases kind

/-! ## Growth and change -/

namespace Heap.IsGoverned

variable {heap after : Heap}

theorem empty : Heap.empty.IsGoverned registry :=
  fun _ => trivial

theorem grows (governed : heap.IsGoverned registry)
    (growth : heap.Grows (Object.IsBound registry) after) :
    after.IsGoverned registry := by
  obtain ⟨added, objects, areBound⟩ := growth
  intro address
  unfold Heap.get Heap.get?
  rw [← Array.getElem?_toList, objects]
  by_cases old : address < heap.objects.toList.length
  · rw [List.getElem?_append_left old, Array.getElem?_toList]
    exact governed address
  · rw [List.getElem?_append_right (Nat.le_of_not_lt old)]
    cases found : added[address - heap.objects.toList.length]? with
    | none => trivial
    | some object =>
        exact areBound object (List.mem_of_getElem? found)

theorem set (governed : heap.IsGoverned registry) (address : Address)
    {object : Object} (isBound : object.IsBound registry) :
    (heap.set address object).IsGoverned registry := by
  intro other
  rw [Heap.get_set]
  split
  · exact isBound
  · exact governed other

theorem record (governed : heap.IsGoverned registry) {address : Address}
    {record : Record} (here : heap.get address = .record record) :
    record.IsBound registry := by
  have isBound := governed address
  rwa [here] at isBound

theorem typeRef (governed : heap.IsGoverned registry) {address : Address}
    {reference : TypeRef} (here : heap.get address = .typeRef reference) :
    reference.IsBound registry := by
  have isBound := governed address
  rwa [here] at isBound

end Heap.IsGoverned

/-! ## States -/

namespace Record

/-- A record that differs in its fields only. -/
def Refills (before after : Record) : Prop :=
  after = { before with fields := after.fields }

theorem IsBound.refill {before after : Record}
    (isBound : before.IsBound registry) (refills : before.Refills after) :
    after.IsBound registry := by
  rw [refills]
  exact ⟨isBound.strategy, isBound.target, isBound.kind⟩

theorem Refills.trans {before middle after : Record}
    (first : before.Refills middle) (second : middle.Refills after) :
    before.Refills after := by
  rw [Refills, second, first]

theorem refills_mergeMapping {heap : Heap} {record after : Record}
    {state : Value} (success : record.mergeMapping heap state = .ok after) :
    record.Refills after := by
  obtain ⟨isTrue, _, success⟩ := Actions.except_bind_eq_ok_iff.mp success
  split at success
  · split at success
    · cases success
      rfl
    · cases success
  · cases success
    rfl

/-- The slots are merged first, if there are any. -/
theorem refills_mergeState {heap : Heap} {record after : Record}
    {state : Value} (success : record.mergeState heap state = .ok after) :
    record.Refills after := by
  fun_induction mergeState heap record state generalizing after with
  | case1 state slots isMapping inductionHypothesis =>
      obtain ⟨isTrue, _, success⟩ := Actions.except_bind_eq_ok_iff.mp success
      split at success
      · obtain ⟨middle, merged, rest⟩ :=
          Actions.except_bind_eq_ok_iff.mp success
        exact (inductionHypothesis merged).trans (refills_mergeMapping rest)
      · exact refills_mergeMapping success
  | case2 => exact refills_mergeMapping success
  | case3 => exact refills_mergeMapping success

theorem refills_fillPositions (record : Record) (names : List Text)
    (values : List Value) :
    record.Refills (record.fillPositions names values) := by
  have filled : ∀ (pairs : List (Text × Value)) (record : Record),
      record.Refills (pairs.foldl
        (fun record pair => record.setField pair.1 pair.2) record) := by
    intro pairs
    induction pairs with
    | nil => exact fun _ => rfl
    | cons pair rest inductionHypothesis =>
        intro record
        have first : record.Refills (record.setField pair.1 pair.2) := rfl
        exact first.trans (inductionHypothesis _)
  unfold fillPositions
  dsimp only
  split
  · exact (filled _ record).trans rfl
  · exact filled _ record

/-- A state changes nothing but the fields of its record. -/
theorem refills_applyState {heap : Heap} {record after : Record}
    {state : Value} (success : record.applyState heap state = .ok after) :
    record.Refills after := by
  unfold applyState at success
  split at success
  · split at success
    · cases success
      rfl
    · split at success
      · cases success
        rfl
      · cases success
        exact refills_fillPositions _ _ _
    · cases success
  · exact refills_mergeState success

end Record

/-! ## Instances -/

namespace TypeRef

variable {reference : TypeRef} {heap : Heap}

theorem grows_newRecord (isBound : reference.IsBound registry)
    {kind : RecordKind}
    (isKind : reference.strategy.recordKind? = some kind) (call : Call) :
    heap.Grows (Object.IsBound registry)
      (reference.newRecord kind call heap).2 := by
  have recordBound : Record.IsBound registry
      ⟨kind, reference.module, reference.name, reference.strategy.target,
        reference.strategy, call.args,
        reference.strategy.initialFields call⟩ :=
    ⟨isBound, rfl, isKind⟩
  exact .alloc heap recordBound

/-- Only a reference that the heap holds is made an instance of, and its record
carries the strategy of the reference. -/
theorem growsTo_instantiate (governed : heap.IsGoverned registry)
    (isBound : reference.IsBound registry) (call : Call) :
    Heap.GrowsTo (Object.IsBound registry) heap
      (reference.instantiate call heap) := by
  have data : ∀ object : Object, object.IsData →
      object.IsBound registry :=
    fun _ isData => isData.isBound
  refine growsTo_instantiateWith data (fun asked address here => ?_)
    (fun _ => grows_newRecord isBound) call
  exact growsTo_instantiateWith data (fun _ _ _ => .error)
    (fun _ => grows_newRecord (governed.typeRef here)) _

end TypeRef

theorem Heap.growsTo_instantiate {heap : Heap}
    (governed : heap.IsGoverned registry) (type : Value) (call : Call) :
    Heap.GrowsTo (Object.IsBound registry) heap
      (heap.instantiate type call) := by
  unfold Heap.instantiate
  split
  · next reference found =>
      obtain ⟨address, _, here⟩ := Heap.typeRef?_eq_some_iff.mp found
      exact .mapError _
        (TypeRef.growsTo_instantiate governed (governed.typeRef here) call)
  · exact .error

end PickleGraph
