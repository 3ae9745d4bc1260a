import PickleGraph.Construction.Instance
import PickleGraph.Literal.Basic
import PickleGraph.Proofs.Relocation.Array

/-!
# Construction over another heap

Literals, constructors of plain values and instances of types are made alike over
another heap, of arguments with higher addresses and marks.
-/

namespace PickleGraph

open Actions

/-! ## Literals -/

namespace Literal

open Heap

variable (below : Heap)

theorem carryOver_numberValue (number : Option Number) (heap : Heap) :
    numberValue number (heap.atop below) =
      (numberValue number heap).map (carryValue below) := by
  unfold numberValue
  split
  · rfl
  · rw [carryOver_float]
    rfl
  · rw [carryOver_complex]
    rfl
  · rfl

theorem carryOver_complexValue
    (combine : Binary64 → Binary64 → Binary64) (left right : Literal)
    (heap : Heap) :
    complexValue combine left right (heap.atop below) =
      (complexValue combine left right heap).map (carryValue below) := by
  unfold complexValue
  split
  · rw [except_bind_map]
    refine except_bind_congr fun real => ?_
    rw [carryOver_complex]
    rfl
  · rfl

theorem carryOver_setValue (members : List Value) (heap : Heap) :
    setValue (members.map (Value.shifted below.shift)) (heap.atop below) =
      (setValue members heap).map (carryValue below) := by
  have merged := Members.merge_shifted below.shift [] members
  rw [List.map_nil] at merged
  unfold setValue
  rw [forM_shifted (checkHashable_atop below heap), merged, except_bind_map]
  refine except_bind_congr fun _ => ?_
  exact congrArg Except.ok
    (carryOver_alloc below heap (.set (Members.merge [] members)))

mutual

/-- A literal denotes the same value, and its containers are as new. -/
theorem carryOver_evaluate (literal : Literal) (heap : Heap) :
    evaluate literal (heap.atop below) =
      (evaluate literal heap).map (carryValue below) := by
  cases literal with
  | noneValue | ellipsis | bool | str | bytes => rfl
  | tuple items =>
      rw [evaluate, evaluate, carryOver_evaluateAll items heap,
        except_map_bind, except_bind_map]
      refine except_bind_congr fun ⟨values, heap⟩ => ?_
      simp [carryOver, Except.map, pure, Except.pure]
  | list items =>
      rw [evaluate, evaluate, carryOver_evaluateAll items heap,
        except_map_bind, except_bind_map]
      refine except_bind_congr fun ⟨values, heap⟩ => ?_
      have made := carryOver_alloc below heap (.list values.toArray)
      simp only [Object.shifted, List.map_toArray] at made
      exact congrArg Except.ok made
  | set members =>
      rw [evaluate, evaluate, carryOver_evaluateAll members heap,
        except_map_bind, except_bind_map]
      exact except_bind_congr fun ⟨values, heap⟩ =>
        carryOver_setValue below values heap
  | dict entries =>
      rw [evaluate, evaluate, carryOver_evaluateEntries entries heap,
        except_map_bind, except_bind_map]
      refine except_bind_congr fun ⟨entries, heap⟩ => ?_
      have merged := Entries.merge_nil_shifted below.shift entries
      dsimp only [carryOver]
      rw [Entries.keys_shifted, forM_shifted (checkHashable_atop below heap),
        merged, except_bind_map]
      refine except_bind_congr fun _ => ?_
      exact congrArg Except.ok
        (carryOver_alloc below heap (.dict false (Entries.merge [] entries)))
  | emptySet => exact congrArg Except.ok (carryOver_alloc below heap (.set []))
  | setType => rfl
  | sum left right => exact carryOver_complexValue below _ left right heap
  | difference left right =>
      exact carryOver_complexValue below _ left right heap
  | int | float | imaginary | plus | minus =>
      simp only [evaluate]
      exact carryOver_numberValue below _ heap

theorem carryOver_evaluateAll (items : List Literal) (heap : Heap) :
    evaluate.evaluateAll items (heap.atop below) =
      (evaluate.evaluateAll items heap).map (carryItems below) := by
  cases items with
  | nil => rfl
  | cons item rest =>
      rw [evaluate.evaluateAll, evaluate.evaluateAll,
        carryOver_evaluate item heap, except_map_bind, except_bind_map]
      refine except_bind_congr fun ⟨value, heap⟩ => ?_
      dsimp only [carryValue, carryOver]
      rw [carryOver_evaluateAll rest heap, except_map_bind, except_bind_map]
      rfl

theorem carryOver_evaluateEntries (entries : List (Literal × Literal))
    (heap : Heap) :
    evaluate.evaluateEntries entries (heap.atop below) =
      (evaluate.evaluateEntries entries heap).map
        (carryOver below (List.map (shiftedEntry below.shift))) := by
  cases entries with
  | nil => rfl
  | cons entry rest =>
      obtain ⟨key, value⟩ := entry
      rw [evaluate.evaluateEntries, evaluate.evaluateEntries,
        carryOver_evaluate key heap, except_map_bind, except_bind_map]
      refine except_bind_congr fun ⟨key, heap⟩ => ?_
      dsimp only [carryValue, carryOver]
      rw [carryOver_evaluate value heap, except_map_bind, except_bind_map]
      refine except_bind_congr fun ⟨value, heap⟩ => ?_
      dsimp only [carryValue, carryOver]
      rw [carryOver_evaluateEntries rest heap, except_map_bind,
        except_bind_map]
      rfl

end

end Literal

/-! ## Calls -/

/-- The call with arguments that have higher addresses and marks. -/
def Call.shifted (shift : Shift) (call : Call) : Call :=
  ⟨call.args.map (Value.shifted shift), call.named.map (shiftedEntry shift)⟩

namespace Call

variable (shift : Shift)

variable (call : Call)

/-- What is asked of all names and their values. -/
theorem all_named_shifted {test : Value × Value → Bool}
    (same : ∀ entry, test (shiftedEntry shift entry) = test entry) :
    (call.shifted shift).named.all test = call.named.all test := by
  refine List.all_map.trans ?_
  congr 1
  funext entry
  exact same entry

@[simp] theorem checkNames_shifted :
    (call.shifted shift).checkNames = call.checkNames := by
  unfold checkNames
  rw [all_named_shifted shift call]
  rintro ⟨name, value⟩
  simp only [shiftedEntry, Value.plain_shifted]
  cases name.plain <;> rfl

@[simp] theorem positional_shifted :
    (call.shifted shift).positional =
      call.positional.map (List.map (Value.shifted shift)) := by
  unfold positional
  simp only [shifted, List.isEmpty_map]
  split <;> rfl

@[simp] theorem onlyArg?_shifted :
    (call.shifted shift).onlyArg? =
      call.onlyArg?.map (Option.map (Value.shifted shift)) := by
  unfold onlyArg?
  rw [positional_shifted, except_map_bind, except_bind_map]
  refine except_bind_congr fun args => ?_
  rcases args with _ | ⟨value, _ | ⟨second, rest⟩⟩ <;> rfl

theorem valueFor_shifted (index : Nat) (name : String) :
    (call.shifted shift).valueFor index name =
      (call.valueFor index name).map (Option.map (Value.shifted shift)) := by
  unfold valueFor
  simp only [shifted, List.getElem?_map, Entries.findText?_shifted]
  cases call.args[index]? with
  | none => rfl
  | some value => cases Entries.findText? name call.named <;> rfl

/-- The parameters take the same arguments. -/
theorem mapM_valueFor_shifted (indexed : List (Nat × String)) :
    (indexed.mapM fun (index, name) =>
        (call.shifted shift).valueFor index name) =
      (indexed.mapM fun (index, name) => call.valueFor index name).map
        (List.map (Option.map (Value.shifted shift))) := by
  refine (congrArg (List.mapM _) (List.map_id indexed).symm).trans ?_
  exact except_mapM_map indexed fun pair =>
    valueFor_shifted shift call pair.1 pair.2

theorem all_given_shifted (values : List (Option Value)) (required : Nat) :
    ((values.map (Option.map (Value.shifted shift))).take required).all
        Option.isSome =
      (values.take required).all Option.isSome := by
  rw [← List.map_take, List.all_map]
  congr 1
  funext value
  cases value <;> rfl

@[simp] theorem bind_shifted (names : List String) (required : Nat) :
    (call.shifted shift).bind names required =
      (call.bind names required).map
        (List.map (Option.map (Value.shifted shift))) := by
  have count : (call.shifted shift).args.length = call.args.length :=
    List.length_map _
  unfold bind
  rw [checkNames_shifted, except_bind_map]
  refine except_bind_congr fun _ => ?_
  dsimp only
  rw [all_named_shifted shift call (fun entry => ?_), count]
  · split
    · rfl
    · refine (congrArg (· >>= _)
        (mapM_valueFor_shifted shift call _)).trans ?_
      rw [except_map_bind, except_bind_map]
      refine except_bind_congr fun values => ?_
      rw [all_given_shifted]
      split <;> rfl
  · simp only [shiftedEntry, Value.matchesKey_str_shifted]

end Call

/-- The argument of a parameter that has taken one. -/
theorem argument_shifted (shift : Shift) (values : List (Option Value))
    (index : Nat) :
    (values.map (Option.map (Value.shifted shift)))[index]?.bind id =
      (values[index]?.bind id).map (Value.shifted shift) := by
  rw [List.getElem?_map]
  cases values[index]? <;> rfl

variable (below heap : Heap)

/-! ## Byte strings -/

namespace Octets

@[simp] theorem ofText_shifted (shift : Shift) (text : Text)
    (charset : Value) (recovery? : Option Value) :
    ofText text (charset.shifted shift)
        (recovery?.map (Value.shifted shift)) =
      ofText text charset recovery? := by
  unfold ofText
  cases recovery? <;> simp only [Option.map_none, Option.map_some,
    Value.text?_shifted]

@[simp] theorem ofNumber_shifted (shift : Shift) (value : Value) :
    ofNumber (value.shifted shift) = ofNumber value := by
  unfold ofNumber
  rw [Value.position?_shifted]

theorem sizeOfValue?_atop (value : Value) :
    sizeOfValue? (value.shifted below.shift) (heap.atop below) =
      sizeOfValue? value heap := by
  cases value with
  | object address =>
      have found := Heap.array?_atop below heap (.object address)
      rw [Value.shifted_object] at found ⊢
      simp only [sizeOfValue?, found]
      cases heap.array? (.object address) with
      | none => rfl
      | some array =>
          obtain ⟨type, shape, content, writable⟩ := array
          cases shape <;> cases content <;> rfl
  | _ => rfl

/-- A value stands for the same bytes. -/
@[simp] theorem ofValue_atop (value : Value) :
    ofValue (value.shifted below.shift) (heap.atop below) =
      ofValue value heap := by
  have items : ∀ items : List Value,
      (items.map (Value.shifted below.shift)).mapM ofNumber =
        items.mapM ofNumber := by
    intro items
    rw [List.mapM_map]
    congr 1
    funext item
    exact ofNumber_shifted below.shift item
  have iterated : (heap.atop below).iterateChecked
      (fun item => discard (ofNumber item)) (value.shifted below.shift) =
        (heap.iterateChecked (fun item => discard (ofNumber item)) value).map
          (Heap.carryItems below) :=
    Heap.carryOver_iterateChecked below heap
      (fun item => by rw [ofNumber_shifted]) value
  unfold ofValue
  rw [sizeOfValue?_atop, Heap.buffer?_atop, iterated]
  split
  · rfl
  · split
    · rfl
    · rw [except_map_bind]
      exact except_bind_congr fun made => items made.1

@[simp] theorem isSize_shifted (shift : Shift) (value : Value) :
    isSize (value.shifted shift) = isSize value := by
  cases value <;> rfl

@[simp] theorem ofCall_atop (typeName : String) (call : Call) :
    ofCall typeName (call.shifted below.shift) (heap.atop below) =
      ofCall typeName call heap := by
  have sized : ∀ args : List Value,
      (((args.map (Value.shifted below.shift)).head?.map isSize).getD
        false) = (args.head?.map isSize).getD false := by
    rintro (_ | ⟨value, rest⟩)
    · rfl
    · exact isSize_shifted below.shift value
  unfold ofCall
  rw [Call.positional_shifted, refused_map, except_map_bind]
  refine except_bind_congr fun args => ?_
  rw [sized]
  split
  · rfl
  · rcases args with
      _ | ⟨value, _ | ⟨charset, _ | ⟨recovery, _ | ⟨fourth, rest⟩⟩⟩⟩
    · rfl
    · simp only [List.map_cons, List.map_nil, Value.text?_shifted,
        ofValue_atop]
    · have encoded := fun text =>
        ofText_shifted below.shift text charset none
      rw [Option.map_none] at encoded
      simp only [List.map_cons, List.map_nil, Value.text?_shifted, encoded]
    · have encoded := fun text =>
        ofText_shifted below.shift text charset (some recovery)
      rw [Option.map_some] at encoded
      simp only [List.map_cons, List.map_nil, Value.text?_shifted, encoded]
    · rfl

end Octets

/-! ## Complex numbers -/

namespace Complex

theorem numberOf?_atop (value : Value) :
    numberOf? (heap.atop below) (value.shifted below.shift) =
      numberOf? heap value := by
  unfold numberOf?
  rw [Heap.array?_atop]
  cases heap.array? value with
  | none => exact Value.number?_shifted below.shift value
  | some array =>
      obtain ⟨type, shape, content, writable⟩ := array
      cases content with
      | raw data => rfl
      | items values =>
          rcases values with _ | ⟨item, _ | ⟨second, rest⟩⟩
          · rfl
          · exact Value.number?_shifted below.shift item
          · rfl

theorem partsOfValue_atop (value : Value) :
    partsOfValue (heap.atop below) (value.shifted below.shift) =
      partsOfValue heap value := by
  unfold partsOfValue
  rw [numberOf?_atop]

@[simp] theorem ofCall_atop (call : Call) :
    ofCall (call.shifted below.shift) (heap.atop below) =
      ofCall call heap := by
  have real : ∀ value? : Option Value,
      (value?.map (Value.shifted below.shift)).getD (.int 0) =
        (value?.getD (.int 0)).shifted below.shift := by
    rintro (_ | value)
    · rfl
    · rfl
  unfold ofCall
  rw [Call.bind_shifted, except_map_bind]
  refine except_bind_congr fun values => ?_
  simp only [argument_shifted, real, Value.text?_shifted, partsOfValue_atop]
  cases ((values[0]?.bind id).getD (Value.int 0)).text? with
  | some text => cases values[1]?.bind id <;> rfl
  | none =>
      cases values[1]?.bind id with
      | none => rfl
      | some imaginary =>
          simp only [Option.map_some, Option.mapM_some, partsOfValue_atop]

end Complex

/-! ## Constructors -/

namespace Constructor

open Heap

theorem carryOver_itemsOf {check other : Value → Except Refusal Unit}
    (same : ∀ value, other (value.shifted below.shift) = check value)
    (call : Call) :
    itemsOf other (call.shifted below.shift) (heap.atop below) =
      (itemsOf check call heap).map (carryItems below) := by
  unfold itemsOf
  rw [Call.onlyArg?_shifted, except_map_bind, except_bind_map]
  refine except_bind_congr fun only => ?_
  cases only with
  | none => rfl
  | some value => exact carryOver_iterateChecked below heap same value

theorem carryOver_membersOf (call : Call) :
    membersOf (call.shifted below.shift) (heap.atop below) =
      (membersOf call heap).map (carryItems below) := by
  unfold membersOf
  rw [carryOver_itemsOf below heap (checkHashable_atop below heap),
    except_map_bind, except_bind_map]
  refine except_bind_congr fun ⟨items, heap⟩ => ?_
  have merged := Members.merge_shifted below.shift [] items
  exact congrArg (fun members => Except.ok (members, heap.atop below)) merged

/-- Entries and their heap, over the heap below. -/
abbrev carryEntries (made : List (Value × Value) × Heap) :
    List (Value × Value) × Heap :=
  carryOver below (List.map (shiftedEntry below.shift)) made

theorem carryOver_entriesOfPairs (pairs : List Value) :
    entriesOfPairs (pairs.map (Value.shifted below.shift))
        (heap.atop below) =
      (entriesOfPairs pairs heap).map (carryEntries below) := by
  show List.foldlM _ (carryEntries below ([], heap))
    (pairs.map (Value.shifted below.shift)) =
      Except.map (carryEntries below) (List.foldlM _ ([], heap) pairs)
  refine except_foldlM_map (fun ⟨entries, heap⟩ pair => ?_) pairs ([], heap)
  dsimp only [carryEntries, carryOver]
  rw [carryOver_iterate, except_map_bind, except_bind_map]
  refine except_bind_congr fun ⟨items, heap⟩ => ?_
  rcases items with _ | ⟨key, _ | ⟨value, _ | ⟨third, rest⟩⟩⟩
  · rfl
  · rfl
  · have inserted := Entries.insert_shifted below.shift key value entries
    show ((heap.atop below).checkHashable (key.shifted below.shift) >>= _) =
      Except.map _ (heap.checkHashable key >>= _)
    rw [checkHashable_atop, except_bind_map]
    exact except_bind_congr fun _ =>
      congrArg (fun entries => Except.ok (entries, heap.atop below)) inserted
  · rfl

theorem carryOver_entriesOfValue (value : Value) :
    entriesOfValue (value.shifted below.shift) (heap.atop below) =
      (entriesOfValue value heap).map (carryEntries below) := by
  unfold entriesOfValue
  rw [entries?_atop, record?_atop]
  cases heap.entries? value with
  | some entries => rfl
  | none =>
      cases heap.record? value with
      | some found => rfl
      | none =>
          dsimp only [Option.map_none]
          rw [carryOver_iterate, except_map_bind, except_bind_map]
          exact except_bind_congr fun ⟨pairs, heap⟩ =>
            carryOver_entriesOfPairs below heap pairs

theorem carryOver_entriesOfCall (call : Call) :
    entriesOfCall (call.shifted below.shift) (heap.atop below) =
      (entriesOfCall call heap).map (carryEntries below) := by
  have ofArgs : entriesOfArgs (heap.atop below)
      (call.shifted below.shift).args =
        (entriesOfArgs heap call.args).map (carryEntries below) := by
    unfold Call.shifted
    rcases call.args with _ | ⟨value, _ | ⟨second, rest⟩⟩
    · rfl
    · exact carryOver_entriesOfValue below heap value
    · rfl
  unfold entriesOfCall
  rw [ofArgs, except_map_bind, except_bind_map]
  refine except_bind_congr fun ⟨entries, heap⟩ => ?_
  have merged := Entries.merge_shifted below.shift entries call.named
  exact congrArg (fun entries => Except.ok (entries, heap.atop below)) merged

/-! ## Encoded texts, arrays and instances -/

theorem decodeCarrier_atop (call : Call) :
    decodeCarrier (call.shifted below.shift) (heap.atop below) =
      (decodeCarrier call heap).map (Value.shifted below.shift) := by
  have absent : ∀ value? : Option Value,
      (value?.map (Value.shifted below.shift)).getD .none =
        (value?.getD .none).shifted below.shift := by
    rintro (_ | value)
    · rfl
    · rfl
  unfold decodeCarrier
  rw [Call.bind_shifted, refused_map, except_map_bind, except_bind_map]
  refine except_bind_congr fun values => ?_
  simp only [argument_shifted, absent, Value.matchesKey_str_shifted,
    quote_atop, Value.plain_shifted]
  generalize (values[0]?.bind id).getD Value.none = content
  generalize (values[1]?.bind id).getD Value.none = charset
  generalize values[2]?.bind id = recovery?
  split
  · cases heap.quote charset <;> rfl
  · cases content.plain with
    | str text =>
        dsimp only [Value.shifted]
        rw [Octets.ofText_shifted]
        cases Octets.ofText text charset recovery? <;> rfl
    | _ => rfl

theorem placementOrder_shifted (shift : Shift) (order : Value) :
    Payload.placementOrder (order.shifted shift) =
      Payload.placementOrder order := by
  cases order <;> rfl

/-- A buffer gives the same array, or is refused with the same words. -/
theorem carryOver_ofLentBuffer (buffer type shape order : Value) :
    Payload.ofLentBuffer (buffer.shifted below.shift)
        (type.shifted below.shift) (shape.shifted below.shift)
        (order.shifted below.shift) (heap.atop below) =
      (Payload.ofLentBuffer buffer type shape order heap).map
        (carryOver below (NdArray.shifted below.shift)) := by
  have rebuilt : ∀ (type : Dtype) (buffer : Value),
      (do
        let line ← (heap.atop below).lend type (buffer.shifted below.shift)
        let found ← (heap.atop below).iterate (shape.shifted below.shift)
        let firstFastest ←
          Payload.placementOrder (order.shifted below.shift)
        let array ← line.reshape (← NdArray.extentsOf found.1) firstFastest
        return (array, found.2) : Except Refusal (NdArray × Heap)) =
      (do
        let line ← heap.lend type buffer
        let found ← heap.iterate shape
        let firstFastest ← Payload.placementOrder order
        let array ← line.reshape (← NdArray.extentsOf found.1) firstFastest
        return (array, found.2) : Except Refusal (NdArray × Heap)).map
          (carryOver below (NdArray.shifted below.shift)) := by
    intro type buffer
    rw [lend_atop, except_map_bind, except_bind_map]
    refine except_bind_congr fun line => ?_
    rw [carryOver_iterate, except_map_bind, except_bind_map]
    refine except_bind_congr fun ⟨extents, heap⟩ => ?_
    rw [placementOrder_shifted, except_bind_map]
    refine except_bind_congr fun firstFastest => ?_
    dsimp only [carryItems, carryOver]
    rw [NdArray.extentsOf_shifted, except_bind_map]
    refine except_bind_congr fun extents => ?_
    rw [NdArray.reshape_shifted, except_map_bind, except_bind_map]
    rfl
  unfold Payload.ofLentBuffer
  rw [payloadDtype_atop, except_bind_map]
  refine except_bind_congr fun type => ?_
  unfold Payload.ofLentBuffer.bufferOctets
  rw [bufferOctets_shifted, refused_map, except_map_bind, except_bind_map]
  refine except_bind_congr fun buffer => ?_
  dsimp only
  rw [rebuilt, quote_atop]
  generalize (do
    let line ← heap.lend type buffer
    let found ← heap.iterate shape
    let firstFastest ← Payload.placementOrder order
    let array ← line.reshape (← NdArray.extentsOf found.1) firstFastest
    return (array, found.2) : Except Refusal (NdArray × Heap)) = outcome
  cases outcome with
  | ok made => rfl
  | error refusal =>
      cases refusal with
      | wrongType => cases heap.quote shape <;> rfl
      | badValue => cases heap.quote shape <;> rfl
      | _ => rfl

theorem carryOver_arrayOfBuffer (call : Call) :
    arrayOfBuffer (call.shifted below.shift) (heap.atop below) =
      (arrayOfBuffer call heap).map (carryValue below) := by
  have stated : ∀ (value? : Option Value) {missing : Value},
      missing.shifted below.shift = missing →
      (value?.map (Value.shifted below.shift)).getD missing =
        (value?.getD missing).shifted below.shift := by
    rintro (_ | value) missing same
    · exact same.symm
    · rfl
  unfold arrayOfBuffer
  rw [Call.bind_shifted, refused_map, except_map_bind, except_bind_map]
  refine except_bind_congr fun values => ?_
  dsimp only
  rw [argument_shifted, argument_shifted, argument_shifted,
    argument_shifted, stated _ rfl, stated _ rfl, stated _ rfl,
    stated _ rfl, carryOver_ofLentBuffer, except_map_bind, except_bind_map]
  exact except_bind_congr fun ⟨array, heap⟩ =>
    congrArg Except.ok (carryOver_alloc below heap (.array array))

theorem reconstructed_atop (call : Call) :
    reconstructed (call.shifted below.shift) (heap.atop below) =
      reconstructed call heap := by
  have absent : ∀ values : List (Option Value),
      ((values.map (Option.map (Value.shifted below.shift))).head?.bind
          id).getD .none =
        ((values.head?.bind id).getD .none).shifted below.shift := by
    rintro (_ | ⟨value, rest⟩)
    · rfl
    · cases value <;> rfl
  unfold reconstructed
  rw [Call.bind_shifted, refused_map, except_map_bind]
  refine except_bind_congr fun values => ?_
  dsimp only
  rw [absent, typeRef?_atop, typeName_atop]

/-- A constructor makes the same value, if the instances that it asks for are
made alike. -/
theorem carryOver_apply
    {instantiate : TypeRef → Heap → Except Failure (Value × Heap)}
    (alike : ∀ reference heap, instantiate reference (heap.atop below) =
      (instantiate reference heap).map (carryValue below))
    (constructor : Constructor) (call : Call) :
    constructor.apply instantiate (call.shifted below.shift)
        (heap.atop below) =
      (constructor.apply instantiate call heap).map (carryValue below) := by
  have items : itemsOf (fun _ => .ok ()) (call.shifted below.shift)
      (heap.atop below) =
        (itemsOf (fun _ => .ok ()) call heap).map (carryItems below) :=
    carryOver_itemsOf below heap (fun _ => rfl) call
  have names : constructor.checkNames (call.shifted below.shift) =
      constructor.checkNames call := by
    unfold Constructor.checkNames
    rw [Call.checkNames_shifted]
  unfold Constructor.apply
  rw [names, except_bind_map]
  refine except_bind_congr fun _ => ?_
  cases constructor with
  | object =>
      dsimp only
      rw [Call.positional_shifted, refused_map, except_map_bind,
        except_bind_map]
      refine except_bind_congr fun args => ?_
      cases args with
      | nil => exact congrArg Except.ok (carryOver_alloc below heap .plain)
      | cons first rest => rfl
  | set =>
      dsimp only
      rw [carryOver_membersOf, refused_map, except_map_bind,
        except_bind_map]
      exact except_bind_congr fun ⟨members, heap⟩ =>
        congrArg Except.ok (carryOver_alloc below heap (.set members))
  | frozenset =>
      dsimp only
      rw [carryOver_membersOf, refused_map, except_map_bind,
        except_bind_map]
      refine except_bind_congr fun ⟨members, heap⟩ => ?_
      exact congrArg (fun value => Except.ok (value, heap.atop below))
        (Value.shifted_frozenset below.shift members).symm
  | list =>
      dsimp only
      rw [items, refused_map, except_map_bind, except_bind_map]
      refine except_bind_congr fun ⟨items, heap⟩ => ?_
      have made := carryOver_alloc below heap (.list items.toArray)
      simp only [Object.shifted, List.map_toArray] at made
      exact congrArg Except.ok made
  | tuple =>
      dsimp only
      rw [items, refused_map, except_map_bind, except_bind_map]
      refine except_bind_congr fun ⟨items, heap⟩ => ?_
      exact congrArg (fun value => Except.ok (value, heap.atop below))
        (Value.shifted_tuple below.shift items).symm
  | dict =>
      dsimp only
      rw [carryOver_entriesOfCall, refused_map, except_map_bind,
        except_bind_map]
      exact except_bind_congr fun ⟨entries, heap⟩ =>
        congrArg Except.ok (carryOver_alloc below heap (.dict false entries))
  | orderedDict =>
      dsimp only
      rw [carryOver_entriesOfCall, refused_map, except_map_bind,
        except_bind_map]
      exact except_bind_congr fun ⟨entries, heap⟩ =>
        congrArg Except.ok (carryOver_alloc below heap (.dict true entries))
  | bytes =>
      dsimp only
      rw [Octets.ofCall_atop, except_bind_map]
      rfl
  | bytearray =>
      dsimp only
      rw [Octets.ofCall_atop, except_bind_map]
      exact except_bind_congr fun content =>
        congrArg Except.ok (carryOver_alloc below heap (.bytearray content))
  | complex =>
      dsimp only
      rw [Complex.ofCall_atop, except_bind_map]
      exact except_bind_congr fun ⟨re, im⟩ =>
        congrArg Except.ok (carryOver_complex below heap re im)
  | encode =>
      dsimp only
      rw [decodeCarrier_atop, except_map_bind, except_bind_map]
      rfl
  | reconstructor =>
      dsimp only
      rw [reconstructed_atop, except_bind_map]
      exact except_bind_congr fun reference => alike reference heap
  | fromBuffer => exact carryOver_arrayOfBuffer below heap call

end Constructor

/-! ## Instances -/

theorem Strategy.initialFields_shifted (shift : Shift) (strategy : Strategy)
    (call : Call) :
    strategy.initialFields (call.shifted shift) =
      (strategy.initialFields call).map (shiftedEntry shift) := by
  have merged := fun entries =>
    Entries.merge_shifted shift entries call.named
  have listed := Entries.merge_nil_shifted shift
  cases strategy with
  | extension target kind names stateNames =>
      have zipped : (names.map Value.str).zip
          (call.args.map (Value.shifted shift)) =
            ((names.map Value.str).zip call.args).map
              (shiftedEntry shift) := by
        have plain : names.map Value.str =
            (names.map Value.str).map (Value.shifted shift) := by
          rw [List.map_map]
          rfl
        refine (congrArg (List.zip · _) plain).trans ?_
        exact List.zip_map
      unfold initialFields Call.shifted
      dsimp only
      rw [zipped, listed, merged]
  | _ => exact merged []

namespace TypeRef

open Heap

theorem carryOver_newRecord (reference : TypeRef) (kind : RecordKind)
    (call : Call) :
    reference.newRecord kind (call.shifted below.shift) (heap.atop below) =
      carryValue below (reference.newRecord kind call heap) := by
  unfold newRecord
  rw [Strategy.initialFields_shifted]
  exact carryOver_alloc below heap (.record
    { kind
      module := reference.module
      name := reference.name
      target := reference.strategy.target
      strategy := reference.strategy
      args := call.args
      fields := reference.strategy.initialFields call })

theorem carryOver_instantiateWith
    {inner : TypeRef → Heap → Except Failure (Value × Heap)}
    (alike : ∀ reference heap, inner reference (heap.atop below) =
      (inner reference heap).map (carryValue below))
    (reference : TypeRef) (call : Call) :
    reference.instantiateWith inner (call.shifted below.shift)
        (heap.atop below) =
      (reference.instantiateWith inner call heap).map
        (carryValue below) := by
  unfold instantiateWith
  cases reference.strategy with
  | callable target constructor =>
      exact Constructor.carryOver_apply below heap alike constructor call
  | _ =>
      exact congrArg Except.ok
        (carryOver_newRecord below heap reference _ call)

theorem carryOver_instantiate (reference : TypeRef) (call : Call) :
    reference.instantiate (call.shifted below.shift) (heap.atop below) =
      (reference.instantiate call heap).map (carryValue below) := by
  refine carryOver_instantiateWith below heap (fun reference heap => ?_)
    reference call
  exact carryOver_instantiateWith below heap (fun _ _ => rfl) reference
    (.ofArgs [])

end TypeRef

/-- An instance is made alike of the same type. -/
theorem Heap.carryOver_instantiate (type : Value) (call : Call) :
    (heap.atop below).instantiate (type.shifted below.shift)
        (call.shifted below.shift) =
      (heap.instantiate type call).map (carryValue below) := by
  unfold instantiate
  rw [typeRef?_atop, typeName_atop]
  cases heap.typeRef? type with
  | none => rfl
  | some reference =>
      dsimp only
      rw [TypeRef.carryOver_instantiate, except_map_mapError]

end PickleGraph
