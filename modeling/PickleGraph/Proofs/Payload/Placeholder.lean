import PickleGraph.Proofs.Array.Reading
import PickleGraph.Proofs.Payload.Header
import PickleGraph.Proofs.Payload.Report

/-!
# What placeholders report

The bytes behind a placeholder give an array, or a defect of the payload is
reported, or else a refusal is let out, in one of the steps that let refusals
out.
-/

namespace PickleGraph

open Actions

variable {refusal : Refusal}

/-- The refusals that are reported when a pickle inside gives no array. -/
def Refusal.spoilsNested : Refusal → Bool
  | .wrongType | .badValue | .undecodable | .unencodable => true
  | .missingKey | .outOfRange | .missingPosition | .missingAttribute
  | .unknownName | .badNotation | .unimplemented | .recursion => false

namespace Payload

open Decoding

variable {source : Source} {nested : Decoding Value} {record : Record}
variable {names : CharacterNames}

/-! ## Nested pickles -/

/-- A pickle inside, or the array that its record stands for, is refused for a
reason that is not reported. -/
inductive NestedEscapes (nested : Decoding Value) (source : Source) :
    Refusal → Prop
  | pickle {after : Source} {refusal : Refusal} :
      nested source = .error (.refused refusal) after →
      refusal.spoilsNested = false → NestedEscapes nested source refusal
  | array {value : Value} {middle : Source} {address : Address}
      {record : Record} {refusal : Refusal} :
      nested source = .ok value middle →
      middle.heap.record? value = some (address, record) →
      record.kind = .ndarray →
      middle.heap.arrayOfRecord record = .error (.refused refusal) →
      refusal.spoilsNested = false → NestedEscapes nested source refusal

theorem corrupt_eq_refused_iff {offset : Option Nat} {failure : Failure} :
    readNested.corrupt offset failure = .refused refusal ↔
      failure = .refused refusal ∧ refusal.spoilsNested = false := by
  cases failure with
  | defect cause place =>
      constructor
      · rintro ⟨⟩
      · rintro ⟨⟨⟩, _⟩
  | source fault =>
      constructor
      · rintro ⟨⟩
      · rintro ⟨⟨⟩, _⟩
  | refused other =>
      cases other with
      | wrongType | badValue | undecodable | unencodable =>
          constructor
          · rintro ⟨⟩
          · rintro ⟨⟨⟩, ⟨⟩⟩
      | missingKey | outOfRange | missingPosition | missingAttribute
      | unknownName | badNotation | unimplemented | recursion =>
          constructor
          · rintro ⟨⟩
            exact ⟨rfl, rfl⟩
          · rintro ⟨⟨⟩, _⟩
            rfl

theorem nestedValue_refused {after : Source}
    (failed : nestedValue nested source = .error (.refused refusal) after)
    (isLetOut : refusal.spoilsNested = false) :
    NestedEscapes nested source refusal := by
  unfold nestedValue at failed
  rcases refuses_bind_iff.mp ⟨after, failed⟩ with
    ⟨stopped, refused⟩ | ⟨value, middle, decoded, rest⟩
  · exact .pickle refused isLetOut
  rw [refuses_heap_bind] at rest
  split at rest
  · next address inner isRecord =>
      split at rest
      · next isArray =>
          rcases refuses_bind_iff.mp rest with refused | ⟨_, _, _, done⟩
          · exact .array decoded isRecord isArray
              (refuses_build_iff.mp refused) isLetOut
          · exact absurd done (not_refuses_of_ok rfl)
      · exact absurd rest (not_refuses_of_ok rfl)
  · exact absurd rest (not_refuses_of_ok rfl)

theorem NestedEscapes.refuses
    (escapes : NestedEscapes nested source refusal) :
    refusal.spoilsNested = false ∧
      Refuses (nestedValue nested) source refusal := by
  cases escapes with
  | pickle refused isLetOut =>
      exact ⟨isLetOut, refuses_bind_iff.mpr (.inl ⟨_, refused⟩)⟩
  | array decoded isRecord isArray refused isLetOut =>
      refine ⟨isLetOut, refuses_bind_iff.mpr (.inr ⟨_, _, decoded, ?_⟩)⟩
      rw [refuses_heap_bind]
      simp only [isRecord, isArray, if_true]
      exact refuses_bind_iff.mpr (.inl (refuses_build_iff.mpr refused))

theorem refuses_readNested_iff :
    Refuses (readNested nested) source refusal ↔
      NestedEscapes nested source refusal := by
  unfold Refuses
  rw [readNested_eq]
  refine Iff.trans refuses_bind_iff ?_
  rw [refuses_mapFailure_iff]
  constructor
  · rintro (⟨failure, after, failed, passed⟩ | ⟨value, middle, _, rest⟩)
    · obtain ⟨rfl, isLetOut⟩ := corrupt_eq_refused_iff.mp passed
      exact nestedValue_refused failed isLetOut
    · unfold acceptArray at rest
      rw [refuses_heap_bind] at rest
      split at rest
      · exact absurd rest (not_refuses_of_ok rfl)
      · exact absurd rest (not_refuses_fail _ _)
  · intro escapes
    obtain ⟨isLetOut, after, refused⟩ := escapes.refuses
    exact .inl ⟨_, after, refused,
      corrupt_eq_refused_iff.mpr ⟨rfl, isLetOut⟩⟩

/-! ## Placeholders -/

/-- The value of a field that gives the order, which may be left out. -/
def orderField (record : Record) : Value :=
  (record.field? "order").getD (.str (Text.ofString "C"))

/-- The fields of a placeholder give a type and a shape, and the order by which
elements are placed. -/
structure Announces (record : Record) (source : Source) (header : Header) :
    Prop where
  isType : ∃ value, record.field? "dtype" = some value ∧
    source.heap.payloadDtype value = .ok header.type
  isShape : ∃ value, record.field? "shape" = some value ∧
    shapeOf? source.heap value = some header.shape
  isOrder : orderFlag (orderField record) source =
    .ok header.firstFastest source

/-- Skips the bytes before the elements where a placeholder announces them. -/
def skipAlignment (record : Record) : Decoding Unit :=
  match record.field "numpy_array_alignment_bytes" with
  | .none => pure ()
  | _ => skipPadding

/-- The refusals that the reading of a placeholder lets out, with a type and a
shape in its fields or with a header behind it. -/
inductive Escapes (names : CharacterNames) (nested : Decoding Value)
    (record : Record) (source : Source) : Refusal → Prop
  | type {type shape : Value} {refusal : Refusal} :
      record.field? "dtype" = some type → record.field? "shape" = some shape →
      source.heap.TypeEscapes type refusal →
      Escapes names nested record source refusal
  | shape {type shape : Value} {element : Dtype} :
      record.field? "dtype" = some type → record.field? "shape" = some shape →
      source.heap.payloadDtype type = .ok element →
      shapeOf? source.heap shape = none →
      source.heap.isShowable shape = false →
      Escapes names nested record source .badValue
  | order {type shape : Value} {element : Dtype} {extents : List Nat} :
      record.field? "dtype" = some type → record.field? "shape" = some shape →
      source.heap.payloadDtype type = .ok element →
      shapeOf? source.heap shape = some extents →
      OrderEscapes source.heap (orderField record) →
      Escapes names nested record source .badValue
  | nested {header : Header} {refusal : Refusal} :
      Announces record source header → header.type.hasObject = true →
      NestedEscapes nested source refusal →
      Escapes names nested record source refusal
  | elements {header : Header} {middle : Source} {refusal : Refusal} :
      Announces record source header → header.type.hasObject = false →
      skipAlignment record source = .ok () middle →
      ElementsEscape header middle refusal →
      Escapes names nested record source refusal
  | header {offset : Option Nat} {text : Text} {middle : Source}
      {refusal : Refusal} :
      record.field? "dtype" = none ∨ record.field? "shape" = none →
      readHeaderText source = .ok (offset, text) middle →
      HeaderEscapes names text middle refusal →
      Escapes names nested record source refusal
  | headed {header : Header} {middle : Source} {refusal : Refusal} :
      record.field? "dtype" = none ∨ record.field? "shape" = none →
      readHeader names source = .ok header middle →
      header.type.hasObject = false →
      ElementsEscape header middle refusal →
      Escapes names nested record source refusal

theorem not_refuses_allocArray {array : NdArray} :
    ¬ Refuses (allocArray array) source refusal :=
  not_refuses_of_ok rfl

/-- The elements of a placeholder that announces them. -/
theorem refuses_elements_iff {header : Header} (inMemory : InMemory source)
    (isRaw : header.type.hasObject = false) :
    Refuses (readElements header >>= allocArray) source refusal ↔
      ElementsEscape header source refusal := by
  rw [refuses_bind_iff, refuses_readElements_iff inMemory isRaw]
  constructor
  · rintro (escapes | ⟨_, _, _, allocated⟩)
    · exact escapes
    · exact absurd allocated not_refuses_allocArray
  · exact .inl

/-- What follows the fields of a placeholder. -/
def readAnnounced (record : Record) (nested : Decoding Value)
    (header : Header) : Decoding Value :=
  if header.type.hasObject then
    readNested nested
  else do
    skipAlignment record
    allocArray (← readElements header)

theorem readInline_of_fields {type shape : Value}
    (hasType : record.field? "dtype" = some type)
    (hasShape : record.field? "shape" = some shape) :
    readInline names record nested = (do
      let element ← query (·.payloadDtype type)
      let extents ← checkShape shape (← tell?)
      let firstFastest ← orderFlag (orderField record)
      readAnnounced record nested ⟨element, extents, firstFastest⟩) := by
  unfold readInline
  simp only [hasType, hasShape]
  refine congrArg _ (funext fun element => ?_)
  refine congrArg _ (funext fun place => ?_)
  refine congrArg _ (funext fun extents => ?_)
  refine congrArg _ (funext fun firstFastest => ?_)
  unfold readAnnounced skipAlignment
  generalize record.field "numpy_array_alignment_bytes" = alignment
  cases alignment <;> rfl

/-- Behind fields that announce the elements, only the elements are left. -/
theorem readInline_of_announces {header : Header}
    (announces : Announces record source header) :
    readInline names record nested source =
      readAnnounced record nested header source := by
  obtain ⟨⟨type, hasType, isType⟩, ⟨shape, hasShape, isShape⟩, isOrder⟩ :=
    announces
  rw [readInline_of_fields hasType hasShape,
    bind_of_eq_ok (query_eq_ok_iff.mpr ⟨isType, rfl⟩)]
  exact (bind_of_eq_ok (checkShape_eq_ok_iff.mpr ⟨isShape, rfl⟩)).trans
    (bind_of_eq_ok isOrder)

theorem readInline_of_header
    (isEmpty : record.field? "dtype" = none ∨ record.field? "shape" = none) :
    readInline names record nested = readHeaded names >>= allocArray := by
  unfold readInline
  split
  · next isType isShape =>
      rw [isType, isShape] at isEmpty
      rcases isEmpty with noType | noShape
      · cases noType
      · cases noShape
  · rfl

theorem reports_skipAlignment (record : Record) :
    Reports (skipAlignment record) := by
  unfold skipAlignment
  split
  · exact .pure _
  · exact reports_composing.skipPadding

/-- Every one of the refusals is met. -/
theorem Escapes.refuses (inMemory : InMemory source)
    (escapes : Escapes names nested record source refusal) :
    Refuses (readInline names record nested) source refusal := by
  have announced : ∀ {header : Header}, Announces record source header →
      Refuses (readAnnounced record nested header) source refusal →
      Refuses (readInline names record nested) source refusal := by
    rintro header announces ⟨after, refused⟩
    exact ⟨after, (readInline_of_announces announces).trans refused⟩
  cases escapes with
  | type hasType hasShape escapes =>
      rw [readInline_of_fields hasType hasShape]
      exact refuses_query_bind_iff.mpr
        (.inl (Heap.payloadDtype_refused_iff.mpr escapes))
  | shape hasType hasShape isType noExtents long =>
      rw [readInline_of_fields hasType hasShape]
      refine refuses_query_bind_iff.mpr (.inr ⟨_, isType, ?_⟩)
      rw [refuses_tell_bind]
      exact refuses_bind_iff.mpr
        (.inl (refuses_checkShape_iff.mpr ⟨noExtents, rfl, long⟩))
  | order hasType hasShape isType isShape escapes =>
      rw [readInline_of_fields hasType hasShape]
      refine refuses_query_bind_iff.mpr (.inr ⟨_, isType, ?_⟩)
      rw [refuses_tell_bind]
      refine refuses_bind_iff.mpr (.inr ⟨_, source,
        checkShape_eq_ok_iff.mpr ⟨isShape, rfl⟩, ?_⟩)
      exact refuses_bind_iff.mpr
        (.inl (refuses_orderFlag_iff.mpr ⟨rfl, escapes⟩))
  | nested announces holdsObjects escapes =>
      refine announced announces ?_
      unfold readAnnounced
      rw [if_pos holdsObjects]
      exact refuses_readNested_iff.mpr escapes
  | elements announces isRaw skipped escapes =>
      have stays := (reports_skipAlignment record).of_ok inMemory skipped
      have rest := (refuses_elements_iff stays isRaw).mpr escapes
      refine announced announces ?_
      unfold readAnnounced
      rw [if_neg (by rw [isRaw]; exact Bool.false_ne_true)]
      exact refuses_bind_iff.mpr (.inr ⟨_, _, skipped, rest⟩)
  | header isEmpty read escapes =>
      rw [readInline_of_header isEmpty]
      refine refuses_bind_iff.mpr (.inl (refuses_bind_iff.mpr (.inl ?_)))
      rw [readHeader_eq]
      exact refuses_bind_iff.mpr
        (.inr ⟨_, _, read, refuses_headerOfText_iff.mpr escapes⟩)
  | headed isEmpty read isRaw escapes =>
      have stays := reports_composing.readHeader.of_ok inMemory read
      have rest := (refuses_readElements_iff stays isRaw).mpr escapes
      rw [readInline_of_header isEmpty]
      refine refuses_bind_iff.mpr (.inl ?_)
      exact refuses_bind_iff.mpr (.inr ⟨_, _, read, rest⟩)

/-! ## Arrays -/

/-- A result is an array of the heap it was left in. -/
def GivesArray (action : Decoding Value) : Prop :=
  ∀ source value after, action source = .ok value after →
    (after.heap.array? value).isSome = true

theorem GivesArray.bind {α : Type} {action : Decoding α}
    {next : α → Decoding Value} (gives : ∀ value, GivesArray (next value)) :
    GivesArray (action >>= next) := by
  intro source value after success
  obtain ⟨given, middle, _, success⟩ := bind_eq_ok_iff.mp success
  exact gives given middle value after success

theorem givesArray_allocArray (array : NdArray) :
    GivesArray (allocArray array) := by
  rintro source _ _ ⟨⟩
  exact Option.isSome_of_mem (array?_alloc source.heap array)

theorem givesArray_readNested (nested : Decoding Value) :
    GivesArray (readNested nested) := by
  refine .bind fun offset => .bind fun value => ?_
  intro source result after success
  rw [heap_bind] at success
  split at success
  · next isArray =>
      cases success
      exact isArray
  · cases success

theorem givesArray_readInline (record : Record) (nested : Decoding Value) :
    GivesArray (readInline names record nested) := by
  unfold readInline
  split
  · refine .bind fun type => .bind fun place => .bind fun shape => ?_
    refine .bind fun firstFastest => ?_
    split
    · exact givesArray_readNested nested
    · split
      · exact .bind givesArray_allocArray
      · exact .bind fun _ => .bind givesArray_allocArray
  · exact .bind givesArray_allocArray

theorem givesArray_readSibling (record : Record)
    (siblings? : Option Siblings) :
    GivesArray (readSibling names record siblings?) := by
  unfold readSibling
  split
  · rintro _ _ _ ⟨⟩
  · split
    · rintro _ _ _ ⟨⟩
    · split
      · exact .bind givesArray_allocArray
      · rintro _ _ _ ⟨⟩

end Payload

/-! ## Payloads in memory -/

namespace Execution

open Decoding

variable {options : Options} {record : Record} {source : Source}

/-- A placeholder without fields, so that a header follows it. -/
def bareWrapper : Record where
  kind := .plain
  module := Text.ofString "m"
  name := Text.ofString "n"
  target := Text.ofString "t"
  strategy := .array [0x74] .inline
  args := []
  fields := []

end Execution

end PickleGraph
