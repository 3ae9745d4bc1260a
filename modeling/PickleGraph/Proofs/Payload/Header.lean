import PickleGraph.Proofs.Payload.Escape

/-!
# Refusals that headers let out

The text of a header denotes a mapping. The sum of an integer that is too large
and an imaginary number is refused, and so is a description whose fields cannot
be taken apart.
-/

namespace PickleGraph

open Actions

variable {refusal : Refusal}

/-! ## Literals -/

/-- The refusals that are reported when a text denotes no value. -/
def Refusal.spoilsLiteral : Refusal → Bool
  | .wrongType | .badValue | .badNotation => true
  | .undecodable | .unencodable | .missingKey | .outOfRange
  | .missingPosition | .missingAttribute | .unknownName
  | .unimplemented | .recursion => false

/-- A refusal to evaluate a literal. -/
def Refusal.IsOfLiteral (refusal : Refusal) : Prop :=
  refusal.spoilsLiteral = true ∨ refusal = .outOfRange

theorem Heap.rejects_checkHashable_object (heap : Heap)
    (address : Address) :
    Rejects Refusal.IsOfLiteral (heap.checkHashable (.object address)) := by
  unfold checkHashable
  split
  · exact .ok _
  · exact .ok _
  · exact .ok _
  · refine .error (.inl ?_)
    unfold viewRefusal
    split
    · split
      · rfl
      · rfl
    · rfl
  · exact .error (.inl rfl)

mutual

theorem Heap.rejects_checkHashable (heap : Heap) (value : Value) :
    Rejects Refusal.IsOfLiteral (heap.checkHashable value) := by
  cases value with
  | tuple items =>
      rw [checkHashable]
      exact heap.rejects_checkItems items
  | object address => exact heap.rejects_checkHashable_object address
  | scalar type data =>
      cases type with
      | element kind size bigEndian unit =>
          cases kind with
          | void => exact .error (.inl rfl)
          | _ => exact .ok _
      | subarray base shape => exact .ok _
      | struct fields size => exact .error (.inl rfl)
  | _ => exact .ok _

theorem Heap.rejects_checkItems (heap : Heap) (items : List Value) :
    Rejects Refusal.IsOfLiteral
      (checkHashable.checkItems heap items) := by
  cases items with
  | nil => exact .ok _
  | cons item rest =>
      rw [checkHashable.checkItems]
      exact .bind (heap.rejects_checkHashable item) fun _ _ =>
        heap.rejects_checkItems rest

end

namespace Literal

theorem rejects_forM (heap : Heap) (values : List Value) :
    Rejects Refusal.IsOfLiteral (values.forM heap.checkHashable) := by
  induction values with
  | nil => exact .ok _
  | cons value rest inductionHypothesis =>
      exact .bind (heap.rejects_checkHashable value) fun _ _ =>
        inductionHypothesis

theorem rejects_complexValue
    (combine : Binary64 → Binary64 → Binary64) (left right : Literal)
    (heap : Heap) :
    Rejects Refusal.IsOfLiteral (complexValue combine left right heap) := by
  unfold complexValue
  split
  · refine .bind ?_ fun _ _ => .ok _
    unfold realPart
    split
    · split
      · exact .ok _
      · exact .error (.inr rfl)
    · exact .ok _
    · exact .error (.inl rfl)
  · exact .error (.inl rfl)

theorem rejects_numberValue (number : Option Number) (heap : Heap) :
    Rejects Refusal.IsOfLiteral (numberValue number heap) := by
  unfold numberValue
  split
  · exact .ok _
  · exact .ok _
  · exact .ok _
  · exact .error (.inl rfl)

mutual

theorem rejects_evaluate (literal : Literal) (heap : Heap) :
    Rejects Refusal.IsOfLiteral (evaluate literal heap) := by
  cases literal with
  | noneValue | ellipsis | bool | str | bytes | emptySet => exact .ok _
  | setType => exact .error (.inl rfl)
  | tuple items | list items =>
      rw [evaluate]
      exact .bind (rejects_evaluateAll items heap) fun _ _ => .ok _
  | set members =>
      rw [evaluate]
      exact .bind (rejects_evaluateAll members heap) fun _ _ =>
        .bind (rejects_forM _ _) fun _ _ => .ok _
  | dict entries =>
      rw [evaluate]
      exact .bind (rejects_evaluateEntries entries heap) fun _ _ =>
        .bind (rejects_forM _ _) fun _ _ => .ok _
  | sum left right => exact rejects_complexValue _ left right heap
  | difference left right => exact rejects_complexValue _ left right heap
  | int | float | imaginary | plus | minus =>
      simp only [evaluate]
      exact rejects_numberValue _ heap

theorem rejects_evaluateAll (items : List Literal) (heap : Heap) :
    Rejects Refusal.IsOfLiteral (evaluate.evaluateAll items heap) := by
  cases items with
  | nil => exact .ok _
  | cons item rest =>
      rw [evaluate.evaluateAll]
      refine .bind (rejects_evaluate item heap) fun _ _ => ?_
      exact .bind (rejects_evaluateAll rest _) fun _ _ => .ok _

theorem rejects_evaluateEntries
    (entries : List (Literal × Literal)) (heap : Heap) :
    Rejects Refusal.IsOfLiteral
      (evaluate.evaluateEntries entries heap) := by
  cases entries with
  | nil => exact .ok _
  | cons entry rest =>
      obtain ⟨key, value⟩ := entry
      rw [evaluate.evaluateEntries]
      refine .bind (rejects_evaluate key heap) fun _ _ => ?_
      refine .bind (rejects_evaluate value _) fun _ _ => ?_
      exact .bind (rejects_evaluateEntries rest _) fun _ _ => .ok _

end

end Literal

namespace Payload

open Decoding

variable {source : Source} {names : CharacterNames}

theorem refuses_literalValue_iff {offset : Option Nat} {text : Text} :
    Refuses (literalValue names offset text) source refusal ↔
      refusal = .outOfRange ∧
        ∃ literal, Literal.parse? names text = some literal ∧
          literal.evaluate source.heap = .error .outOfRange := by
  unfold literalValue
  dsimp only
  cases parsed : Literal.parse? names text with
  | none =>
      constructor
      · rintro ⟨_, ⟨⟩⟩
      · rintro ⟨_, _, ⟨⟩, _⟩
  | some literal =>
      have rejected := Literal.rejects_evaluate literal source.heap
      rw [refuses_mapFailure_iff]
      constructor
      · rintro ⟨failure, after, failed, isLetOut⟩
        obtain ⟨other, evaluated, rfl, _⟩ := make_eq_error_iff.mp failed
        rcases rejected other evaluated with spoils | rfl
        · cases other with
          | wrongType | badValue | badNotation => cases isLetOut
          | _ => cases spoils
        · cases isLetOut
          exact ⟨rfl, literal, rfl, evaluated⟩
      · rintro ⟨rfl, _, ⟨⟩, evaluated⟩
        exact ⟨_, _, make_eq_error_iff.mpr ⟨_, evaluated, rfl, rfl⟩, rfl⟩

/-! ## Texts -/

/-- The text of a header, and the place where the header starts. -/
def readHeaderText : Decoding (Option Nat × Text) := do
  let offset ← tell?
  let found ← readExact magic.length
  if found ≠ magic then
    fail (.badMagic found) offset
  else
    let version ← readExact 2
    let major := (version.headD 0).toNat
    let minor := (version.getLastD 0).toNat
    match lengthWidth? major with
    | none => fail (.unsupportedVersion major minor) offset
    | some width => do
        let length := Bytes.toNatLE (← readExact width)
        let content ← readExact length
        match headerText (headerCharset major) content with
        | .error cause => fail cause offset
        | .ok text => return (offset, text)

/-- The header that a text denotes. -/
def headerOfText (names : CharacterNames) (offset : Option Nat)
    (text : Text) : Decoding Header := do
  let value ← literalValue names offset text
  match (← heap).entries? value with
  | some entries => headerOf entries offset (.headerIncomplete text)
  | none => fail (.headerIncomplete text) offset

theorem readHeader_eq :
    readHeader names = readHeaderText >>= fun found =>
      headerOfText names found.1 found.2 := by
  unfold readHeader readHeaderText
  rw [bind_assoc]
  refine congrArg _ (funext fun offset => ?_)
  rw [bind_assoc]
  refine congrArg _ (funext fun found => ?_)
  by_cases isMagic : found ≠ magic
  · rw [if_pos isMagic, if_pos isMagic]
    rfl
  rw [if_neg isMagic, if_neg isMagic, bind_assoc]
  refine congrArg _ (funext fun version => ?_)
  dsimp only
  cases lengthWidth? (version.headD 0).toNat with
  | none => rfl
  | some width =>
      dsimp only
      rw [bind_assoc]
      refine congrArg _ (funext fun length => ?_)
      rw [bind_assoc]
      refine congrArg _ (funext fun content => ?_)
      cases headerText (headerCharset (version.headD 0).toNat) content with
      | error cause => rfl
      | ok text =>
          rw [pure_bind]
          rfl

/-- A field of a description cannot be taken apart. Those before it have made
objects of their own. -/
inductive FieldsEscape : Heap → List Value → Refusal → Prop
  | here {heap : Heap} {field : Value} {rest : List Value}
      {refusal : Refusal} :
      heap.iterate field = .error refusal →
      FieldsEscape heap (field :: rest) refusal
  | there {heap after : Heap} {field : Value} {items rest : List Value}
      {refusal : Refusal} :
      heap.iterate field = .ok (items, after) →
      FieldsEscape after rest refusal →
      FieldsEscape heap (field :: rest) refusal

/-- Takes a field of a description apart. -/
def tupleField (field : Value) : Decoding Value := do
  return .tuple (← make (·.iterate field))

theorem refuses_tupleField_bind_iff {β : Type} {field : Value}
    {next : Value → Decoding β} :
    Refuses (tupleField field >>= next) source refusal ↔
      source.heap.iterate field = .error refusal ∨
        ∃ items after, source.heap.iterate field = .ok (items, after) ∧
          Refuses (next (.tuple items)) { source with heap := after }
            refusal := by
  unfold tupleField
  rw [bind_assoc, refuses_bind_iff, refuses_make_iff]
  refine or_congr Iff.rfl ?_
  simp only [make_eq_ok_iff, pure_bind]
  constructor
  · rintro ⟨items, _, ⟨after, iterated, rfl⟩, refused⟩
    exact ⟨items, after, iterated, refused⟩
  · rintro ⟨items, after, iterated, refused⟩
    exact ⟨items, _, ⟨after, iterated, rfl⟩, refused⟩

theorem refuses_tupleFields_iff {fields : List Value} :
    Refuses (fields.mapM tupleField) source refusal ↔
      FieldsEscape source.heap fields refusal := by
  induction fields generalizing source with
  | nil =>
      constructor
      · exact fun refused => absurd refused (not_refuses_of_ok rfl)
      · rintro ⟨⟩
  | cons field rest inductionHypothesis =>
      rw [List.mapM_cons, refuses_tupleField_bind_iff]
      constructor
      · rintro (refused | ⟨items, after, iterated, refused⟩)
        · exact .here refused
        · rcases refuses_bind_iff.mp refused with refused | ⟨_, _, _, done⟩
          · exact .there iterated (inductionHypothesis.mp refused)
          · exact absurd done (not_refuses_of_ok rfl)
      · rintro (refused | ⟨iterated, refused⟩)
        · exact .inl refused
        · refine .inr ⟨_, _, iterated, refuses_bind_iff.mpr (.inl ?_)⟩
          exact inductionHypothesis.mpr refused

theorem refuses_withTupleFields_iff {value : Value} :
    Refuses (withTupleFields value) source refusal ↔
      ∃ address fields, value = .object address ∧
        source.heap.get address = .list fields ∧
        FieldsEscape source.heap fields.toList refusal := by
  unfold withTupleFields
  rw [refuses_heap_bind]
  cases value with
  | object address =>
      dsimp only
      cases here : source.heap.get address with
      | list fields =>
          dsimp only
          have listed : (fields.mapM fun item => do
              return Value.tuple (← make (·.iterate item)) :
                Decoding (Array Value)) =
              (fields.toList.mapM tupleField) >>= fun described =>
                pure described.toArray := by
            rw [Array.mapM_eq_mapM_toList, map_eq_pure_bind]
            rfl
          rw [listed, bind_assoc, refuses_bind_iff, refuses_tupleFields_iff]
          constructor
          · rintro (refused | ⟨_, _, _, done⟩)
            · exact ⟨address, fields, rfl, here, refused⟩
            · exact absurd done (not_refuses_of_ok rfl)
          · rintro ⟨_, _, ⟨⟩, same, refused⟩
            cases here.symm.trans same
            exact .inl refused
      | _ =>
          constructor
          · exact fun refused => absurd refused (not_refuses_of_ok rfl)
          · rintro ⟨_, _, ⟨⟩, same, _⟩
            cases here.symm.trans same
  | _ =>
      constructor
      · exact fun refused => absurd refused (not_refuses_of_ok rfl)
      · rintro ⟨_, _, ⟨⟩, _⟩

/-- The entries of a header make no header: the shape or the order is none and
cannot be shown in the report, a field of the description cannot be taken apart,
or the description is refused as a type. -/
inductive EntriesEscape (source : Source)
    (description order shape : Value) : Refusal → Prop
  | shape :
      shapeOf? source.heap shape = none →
      source.heap.isShowable shape = false →
      EntriesEscape source description order shape .badValue
  | order {extents : List Nat} :
      shapeOf? source.heap shape = some extents →
      (∀ flag, order ≠ .bool flag) → source.heap.isShowable order = false →
      EntriesEscape source description order shape .badValue
  | fields {extents : List Nat} {flag : Bool} {address : Address}
      {fields : Array Value} {refusal : Refusal} :
      shapeOf? source.heap shape = some extents → order = .bool flag →
      description = .object address →
      source.heap.get address = .list fields →
      FieldsEscape source.heap fields.toList refusal →
      EntriesEscape source description order shape refusal
  | type {extents : List Nat} {flag : Bool} {described : Value}
      {after : Source} {refusal : Refusal} :
      shapeOf? source.heap shape = some extents → order = .bool flag →
      withTupleFields description source = .ok described after →
      after.heap.TypeEscapes described refusal →
      EntriesEscape source description order shape refusal

theorem refuses_headerOf_iff {entries : List (Value × Value)}
    {description order shape : Value} {offset : Option Nat} {missing : Cause}
    (descr : Entries.findText? "descr" entries = some description)
    (hasOrder : Entries.findText? "fortran_order" entries = some order)
    (hasShape : Entries.findText? "shape" entries = some shape) :
    Refuses (headerOf entries offset missing) source refusal ↔
      EntriesEscape source description order shape refusal := by
  unfold headerOf
  simp only [descr, hasOrder, hasShape]
  rw [refuses_bind_iff, refuses_checkShape_iff]
  constructor
  · rintro (⟨noShape, rfl, long⟩ | ⟨extents, middle, checked, rest⟩)
    · exact .shape noShape long
    obtain ⟨isShape, rfl⟩ := checkShape_eq_ok_iff.mp checked
    split at rest
    · rcases refuses_bind_iff.mp rest with
        refused | ⟨described, after, tupled, rest⟩
      · obtain ⟨address, fields, rfl, here, escapes⟩ :=
          refuses_withTupleFields_iff.mp refused
        exact .fields isShape rfl rfl here escapes
      rcases refuses_query_bind_iff.mp rest with refused | ⟨_, _, done⟩
      · exact .type isShape rfl tupled
          (Heap.payloadDtype_refused_iff.mp refused)
      · exact absurd done (not_refuses_of_ok rfl)
    · next noFlag =>
        obtain ⟨rfl, long⟩ := refuses_blame_iff.mp rest
        exact .order isShape noFlag long
  · intro escapes
    cases escapes with
    | shape noShape long => exact .inl ⟨noShape, rfl, long⟩
    | order isShape noFlag long =>
        refine .inr ⟨_, source, checkShape_eq_ok_iff.mpr ⟨isShape, rfl⟩, ?_⟩
        split
        · next flag => exact absurd rfl (noFlag flag)
        · exact refuses_blame_iff.mpr ⟨rfl, long⟩
    | fields isShape isFlag isObject here escapes =>
        subst isFlag isObject
        refine .inr ⟨_, source, checkShape_eq_ok_iff.mpr ⟨isShape, rfl⟩, ?_⟩
        refine refuses_bind_iff.mpr (.inl ?_)
        exact refuses_withTupleFields_iff.mpr ⟨_, _, rfl, here, escapes⟩
    | type isShape isFlag tupled escapes =>
        subst isFlag
        refine .inr ⟨_, source, checkShape_eq_ok_iff.mpr ⟨isShape, rfl⟩, ?_⟩
        refine refuses_bind_iff.mpr (.inr ⟨_, _, tupled, ?_⟩)
        refine refuses_query_bind_iff.mpr (.inl ?_)
        exact Heap.payloadDtype_refused_iff.mpr escapes

/-- A header that lacks an entry is reported. -/
theorem entries_of_refuses_headerOf {entries : List (Value × Value)}
    {offset : Option Nat} {missing : Cause}
    (refused : Refuses (headerOf entries offset missing) source refusal) :
    ∃ description order shape,
      Entries.findText? "descr" entries = some description ∧
        Entries.findText? "fortran_order" entries = some order ∧
        Entries.findText? "shape" entries = some shape := by
  unfold headerOf at refused
  dsimp only at refused
  split at refused
  · next description order shape descr hasOrder hasShape =>
      exact ⟨description, order, shape, descr, hasOrder, hasShape⟩
  · exact absurd refused (not_refuses_fail _ _)

/-! ## Headers -/

/-- In a heap a text denotes a mapping with the entries of a header, and leaves
another heap. -/
def HoldsEntries (names : CharacterNames) (text : Text) (heap : Heap)
    (description order shape : Value) (after : Heap) : Prop :=
  ∃ literal value entries,
    Literal.parse? names text = some literal ∧
      literal.evaluate heap = .ok (value, after) ∧
      after.entries? value = some entries ∧
      Entries.findText? "descr" entries = some description ∧
      Entries.findText? "fortran_order" entries = some order ∧
      Entries.findText? "shape" entries = some shape

/-- The text of a header is refused as a literal, or its entries make no
header. -/
inductive HeaderEscapes (names : CharacterNames) (text : Text)
    (source : Source) : Refusal → Prop
  | literal {literal : Literal} :
      Literal.parse? names text = some literal →
      literal.evaluate source.heap = .error .outOfRange →
      HeaderEscapes names text source .outOfRange
  | entries {description order shape : Value} {after : Heap}
      {refusal : Refusal} :
      HoldsEntries names text source.heap description order shape after →
      EntriesEscape { source with heap := after } description order shape
        refusal →
      HeaderEscapes names text source refusal

theorem literalValue_eq_ok_iff {offset : Option Nat} {text : Text}
    {value : Value} {after : Source} :
    literalValue names offset text source = .ok value after ↔
      ∃ literal heap, Literal.parse? names text = some literal ∧
        literal.evaluate source.heap = .ok (value, heap) ∧
        after = { source with heap } := by
  unfold literalValue
  cases Literal.parse? names text with
  | none =>
      constructor
      · rintro ⟨⟩
      · rintro ⟨_, _, ⟨⟩, _⟩
  | some literal =>
      rw [mapFailure_eq_ok_iff, make_eq_ok_iff]
      constructor
      · rintro ⟨heap, evaluated, rfl⟩
        exact ⟨literal, heap, rfl, evaluated, rfl⟩
      · rintro ⟨_, heap, ⟨⟩, evaluated, rfl⟩
        exact ⟨heap, evaluated, rfl⟩

theorem refuses_headerOfText_iff {offset : Option Nat} {text : Text} :
    Refuses (headerOfText names offset text) source refusal ↔
      HeaderEscapes names text source refusal := by
  unfold headerOfText
  rw [refuses_bind_iff, refuses_literalValue_iff]
  constructor
  · rintro (⟨rfl, literal, parsed, refused⟩ | ⟨value, middle, read, rest⟩)
    · exact .literal parsed refused
    obtain ⟨literal, heap, parsed, evaluated, rfl⟩ :=
      literalValue_eq_ok_iff.mp read
    rw [refuses_heap_bind] at rest
    split at rest
    · next entries isMapping =>
        obtain ⟨description, order, shape, descr, hasOrder, hasShape⟩ :=
          entries_of_refuses_headerOf rest
        refine .entries ⟨literal, value, entries, parsed, evaluated,
          isMapping, descr, hasOrder, hasShape⟩ ?_
        exact (refuses_headerOf_iff descr hasOrder hasShape).mp rest
    · exact absurd rest (not_refuses_fail _ _)
  · rintro (⟨parsed, refused⟩ | ⟨holds, escapes⟩)
    · exact .inl ⟨rfl, _, parsed, refused⟩
    · obtain ⟨literal, value, entries, parsed, evaluated, isMapping, descr,
        hasOrder, hasShape⟩ := holds
      refine .inr ⟨value, _, literalValue_eq_ok_iff.mpr
        ⟨literal, _, parsed, evaluated, rfl⟩, ?_⟩
      rw [refuses_heap_bind]
      simp only [isMapping]
      exact (refuses_headerOf_iff descr hasOrder hasShape).mpr escapes

end Payload

end PickleGraph
