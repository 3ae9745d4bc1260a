import PickleGraph.NdArray.OfRecord
import PickleGraph.Proofs.Array.Layout
import PickleGraph.Proofs.Bytes
import PickleGraph.Proofs.Machine.Steps
import PickleGraph.Proofs.Payload.Refusal

/-!
# Refusals that payloads let out

The array of a placeholder is read in steps: a type is converted, a shape and an
order are checked, and elements are read and brought into the shape, or a pickle
inside is decoded. A refusal in one of these steps is let out if the step does
not report it as a defect of the payload. These are all of them.

Only a reader meets a fault of the source. What is rebuilt from values in a heap
is refused or has a defect, and a fault that is met inside a pickle is reported
as a defect of the pickle.
-/

namespace PickleGraph

open Actions

/-! ## Failures without faults -/

theorem isFaultless_mapM {α β : Type} {change : α → Except Failure β}
    (faultless : ∀ item, IsFaultless (change item)) (items : List α) :
    IsFaultless (items.mapM change) := by
  induction items with
  | nil => exact .ok _
  | cons item rest inductionHypothesis =>
      rw [List.mapM_cons]
      exact .bind (faultless item) fun _ _ =>
        .bind inductionHypothesis fun _ _ => .ok _

namespace Heap

variable {heap : Heap}

/-! ## Types -/

theorem isFaultless_quoting {α : Type} (cause : Text → Cause)
    (value : Value) :
    IsFaultless (do
      Failure.raise (cause (← heap.quote value)) : Except Failure α) :=
  .bind (isFaultless_lift _) fun _ _ => .error rfl

/-! The steps in between are refused or have defects, whichever way is taken
through them. -/

theorem isFaultless_timeUnit (record : Record) :
    IsFaultless (heap.timeUnit record) := by
  unfold timeUnit
  dsimp only
  repeat' first
    | exact .ok _
    | exact .error rfl
    | exact isFaultless_quoting _ _
    | exact isFaultless_lift _
    | refine .bind ?_ fun _ _ => ?_
    | split

theorem isFaultless_timeType (kind : ElementKind) (record : Record) :
    IsFaultless (heap.timeType kind record) := by
  refine .bind (isFaultless_timeUnit record) fun unit _ => ?_
  refine .bind (isFaultless_lift _) fun isTrue _ => ?_
  split
  · exact .bind (isFaultless_lift _) fun _ _ => isFaultless_lift _
  · exact isFaultless_lift _

theorem isFaultless_elementType (code : Text) (record : Record) :
    IsFaultless (heap.elementType code record) := by
  unfold elementType
  dsimp only
  repeat' first
    | exact .ok _
    | exact isFaultless_timeType _ record
    | exact isFaultless_lift _
    | refine .bind ?_ fun _ _ => ?_
    | split

section Conversion

variable {convert : Value → Except Failure Dtype}
variable (converts : ∀ value, IsFaultless (convert value))

include converts

theorem isFaultless_structType (record : Record) (names : Value) :
    IsFaultless (heap.structType convert record names) := by
  have field : ∀ fields name,
      IsFaultless (heap.fieldOfRecord convert fields name) := by
    intro fields name
    refine .bind (isFaultless_lift _) fun item _ => ?_
    refine .bind (isFaultless_lift _) fun pair _ => ?_
    exact .bind (converts _) fun _ _ => .ok _
  unfold structType
  dsimp only
  repeat' first
    | exact .ok _
    | exact .error rfl
    | exact field _ _
    | exact isFaultless_lift _
    | refine isFaultless_mapM (fun _ => ?_) _
    | refine .bind ?_ fun _ _ => ?_
    | split

theorem isFaultless_ofRecord (record : Record) :
    IsFaultless (convertDtype.ofRecord heap convert record) := by
  unfold convertDtype.ofRecord
  dsimp only
  repeat' first
    | exact .ok _
    | exact .error rfl
    | exact isFaultless_quoting _ _
    | exact isFaultless_lift _
    | exact isFaultless_structType converts record _
    | exact isFaultless_elementType _ record
    | exact converts _
    | refine .bind ?_ fun _ _ => ?_
    | split

end Conversion

theorem isFaultless_toDtype (value : Value) :
    IsFaultless (heap.toDtype value) := by
  unfold toDtype
  generalize heap.objects.size + 1 = depth
  induction depth generalizing value with
  | zero => exact .error rfl
  | succ depth inductionHypothesis =>
      unfold convertDtype
      split
      · split
        · exact isFaultless_ofRecord inductionHypothesis _
        · exact .error rfl
      · exact isFaultless_lift _

/-! ## Arrays -/

end Heap

/-! ## Pickles -/

namespace Execution

end Execution

variable {refusal : Refusal}

/-! ## Types -/

/-- The refusals that are reported when a value describes no type. -/
def Refusal.spoilsType : Refusal → Bool
  | .wrongType | .badValue | .undecodable | .unencodable | .missingKey =>
      true
  | .outOfRange | .missingPosition | .missingAttribute | .unknownName
  | .badNotation | .unimplemented | .recursion => false

/-- The failures that are reported when a value describes no type. -/
def Failure.spoilsType : Failure → Bool
  | .defect .. => true
  | .refused refusal => refusal.spoilsType
  | .source _ => false

namespace Heap

variable {heap : Heap} {value : Value}

theorem quote_eq_error_iff :
    heap.quote value = .error refusal ↔
      refusal = .badValue ∧ heap.isShowable value = false := by
  unfold quote
  cases heap.isShowable value with
  | true => simp
  | false => simp [eq_comm]

theorem quoting_refused_iff {α : Type} {cause : Text → Cause} :
    (do Failure.raise (cause (← heap.quote value)) : Except Failure α) =
        .error (.refused refusal) ↔
      refusal = .badValue ∧ heap.isShowable value = false := by
  rw [← quote_eq_error_iff]
  cases heap.quote value with
  | ok text =>
      constructor
      · rintro ⟨⟩
      · rintro ⟨⟩
  | error other =>
      constructor
      · rintro ⟨⟩
        rfl
      · rintro ⟨⟩
        rfl

/-- A value is refused as a type for a reason that is not reported, or it cannot
be shown in the report. -/
inductive TypeEscapes (heap : Heap) (value : Value) : Refusal → Prop
  | uncaught {refusal : Refusal} :
      heap.toDtype value = .error (.refused refusal) →
      refusal.spoilsType = false → TypeEscapes heap value refusal
  | unshowable {failure : Failure} :
      heap.toDtype value = .error failure → failure.spoilsType = true →
      heap.isShowable value = false → TypeEscapes heap value .badValue

theorem payloadDtype_refused_iff :
    heap.payloadDtype value = .error (.refused refusal) ↔
      heap.TypeEscapes value refusal := by
  unfold payloadDtype
  cases converted : heap.toDtype value with
  | ok type =>
      constructor
      · rintro ⟨⟩
      · rintro (⟨refused, _⟩ | ⟨failed, _, _⟩)
        · cases converted.symm.trans refused
        · cases converted.symm.trans failed
  | error failure =>
      have isReported : failure.spoilsType = true →
          (refusal = .badValue ∧ heap.isShowable value = false ↔
            heap.TypeEscapes value refusal) := by
        intro spoils
        constructor
        · rintro ⟨rfl, long⟩
          exact .unshowable converted spoils long
        · rintro (⟨refused, other⟩ | ⟨_, _, long⟩)
          · cases converted.symm.trans refused
            exact absurd (spoils.symm.trans other) Bool.noConfusion
          · exact ⟨rfl, long⟩
      have isLetOut : ∀ other : Refusal, failure = .refused other →
          other.spoilsType = false →
          ((.error (.refused other) : Except Failure Dtype) =
              .error (.refused refusal) ↔
            heap.TypeEscapes value refusal) := by
        rintro other rfl spoils
        constructor
        · rintro ⟨⟩
          exact .uncaught converted spoils
        · rintro (⟨refused, _⟩ | ⟨failed, reported, _⟩)
          · cases converted.symm.trans refused
            rfl
          · cases converted.symm.trans failed
            exact absurd (reported.symm.trans spoils) Bool.noConfusion
      cases failure with
      | defect cause place =>
          exact quoting_refused_iff.trans (isReported rfl)
      | source fault =>
          have faultless := isFaultless_toDtype value _ converted
          cases faultless
      | refused other =>
          cases other with
          | wrongType | badValue | undecodable | unencodable | missingKey =>
              exact quoting_refused_iff.trans (isReported rfl)
          | outOfRange | missingPosition | missingAttribute | unknownName
          | badNotation | unimplemented | recursion => exact isLetOut _ rfl rfl

end Heap

namespace Payload

open Decoding

variable {source : Source}

/-! ## Questions -/

theorem query_eq_ok_iff {α : Type} {answer : Heap → Except Failure α}
    {result : α} {after : Source} :
    query answer source = .ok result after ↔
      answer source.heap = .ok result ∧ after = source := by
  unfold query
  cases answer source.heap with
  | ok other => simp [eq_comm]
  | error failure => simp

theorem refuses_blame_iff {α : Type} {cause : Text → Cause} {value : Value}
    {offset : Option Nat} :
    Refuses (do fail (cause (← ask (·.quote value))) offset : Decoding α)
        source refusal ↔
      refusal = .badValue ∧ source.heap.isShowable value = false := by
  rw [refuses_bind_iff, refuses_ask_iff, Heap.quote_eq_error_iff]
  constructor
  · rintro (refused | ⟨text, middle, _, refused⟩)
    · exact refused
    · exact absurd refused (not_refuses_fail _ _)
  · exact .inl

/-! ## Shapes and orders -/

theorem refuses_checkShape_iff {value : Value} {offset : Option Nat} :
    Refuses (checkShape value offset) source refusal ↔
      shapeOf? source.heap value = none ∧ refusal = .badValue ∧
        source.heap.isShowable value = false := by
  unfold checkShape
  rw [refuses_heap_bind]
  cases shaped : shapeOf? source.heap value with
  | some shape =>
      constructor
      · exact fun refused => absurd refused (not_refuses_of_ok rfl)
      · rintro ⟨⟨⟩, _⟩
  | none =>
      exact refuses_blame_iff.trans ⟨fun long => ⟨rfl, long⟩, And.right⟩

theorem heap_bind {β : Type} (next : Heap → Decoding β) (source : Source) :
    (heap >>= next) source = next source.heap source :=
  rfl

theorem checkShape_eq_ok_iff {value : Value} {offset : Option Nat}
    {shape : List Nat} {after : Source} :
    checkShape value offset source = .ok shape after ↔
      shapeOf? source.heap value = some shape ∧ after = source := by
  unfold checkShape
  rw [heap_bind]
  cases shapeOf? source.heap value with
  | some other =>
      constructor
      · rintro ⟨⟩
        exact ⟨rfl, rfl⟩
      · rintro ⟨⟨⟩, rfl⟩
        rfl
  | none =>
      constructor
      · intro success
        obtain ⟨text, middle, _, failed⟩ := bind_eq_ok_iff.mp success
        cases failed
      · rintro ⟨⟨⟩, _⟩

/-- Texts are compared alike, so that a value which cannot be compared to one of
them can be compared to none. -/
theorem isText_eq_error {heap : Heap} {text : Text} (other : Text)
    {depth : Nat} {value : Value}
    (refused : isText heap text depth value = .error refusal) :
    isText heap other depth value = .error .badValue ∧
      refusal = .badValue := by
  induction depth generalizing value with
  | zero => cases refused
  | succ depth inductionHypothesis =>
      unfold isText at refused ⊢
      cases isArray : heap.array? value with
      | none =>
          rw [isArray] at refused
          cases refused
      | some array =>
          simp only [isArray] at refused ⊢
          by_cases many : array.size ≠ 1
          · rw [if_pos many] at refused ⊢
            cases refused
            exact ⟨rfl, rfl⟩
          · rw [if_neg many] at refused ⊢
            cases content : array.content with
            | raw data =>
                rw [content] at refused
                cases refused
            | items values =>
                rw [content] at refused
                cases values with
                | nil => cases refused
                | cons item rest => exact inductionHypothesis refused

/-- Whether a value is the name of an order. -/
def isOrder (heap : Heap) (name : String) (value : Value) :
    Except Refusal Bool :=
  isText heap (Text.ofString name) (heap.objects.size + 1) value

/-- A value cannot be compared to the name of an order, or it is the name of none
and cannot be shown in the report. -/
inductive OrderEscapes (heap : Heap) (value : Value) : Prop
  | uncomparable :
      isOrder heap "F" value = .error .badValue → OrderEscapes heap value
  | unshowable :
      isOrder heap "F" value = .ok false →
      isOrder heap "C" value = .ok false →
      heap.isShowable value = false → OrderEscapes heap value

theorem refuses_orderFlag_iff {value : Value} :
    Refuses (orderFlag value) source refusal ↔
      refusal = .badValue ∧ OrderEscapes source.heap value := by
  unfold orderFlag
  dsimp only
  rw [refuses_ask_bind_iff]
  constructor
  · rintro (refused | ⟨isFirst, first, rest⟩)
    · obtain ⟨_, rfl⟩ := isText_eq_error [] refused
      exact ⟨rfl, .uncomparable refused⟩
    cases isFirst with
    | true => exact absurd rest (not_refuses_of_ok rfl)
    | false =>
        rw [if_neg Bool.false_ne_true, refuses_ask_bind_iff] at rest
        rcases rest with refused | ⟨isLast, last, rest⟩
        · obtain ⟨alsoFirst, rfl⟩ :=
            isText_eq_error (Text.ofString "F") refused
          exact ⟨rfl, .uncomparable alsoFirst⟩
        cases isLast with
        | true => exact absurd rest (not_refuses_of_ok rfl)
        | false =>
            rw [if_neg Bool.false_ne_true, refuses_ask_bind_iff] at rest
            rcases rest with refused | ⟨text, _, rest⟩
            · obtain ⟨rfl, long⟩ := Heap.quote_eq_error_iff.mp refused
              exact ⟨rfl, .unshowable first last long⟩
            · exact absurd rest (not_refuses_fail _ _)
  · rintro ⟨rfl, uncomparable | ⟨first, last, long⟩⟩
    · exact .inl uncomparable
    · refine .inr ⟨false, first, ?_⟩
      rw [if_neg Bool.false_ne_true, refuses_ask_bind_iff]
      refine .inr ⟨false, last, ?_⟩
      rw [if_neg Bool.false_ne_true, refuses_ask_bind_iff]
      exact .inl (Heap.quote_eq_error_iff.mpr ⟨rfl, long⟩)

/-! ## Reading -/

/-- Bytes that are read exactly: a stream that ends before them is a defect of
the payload. -/
theorem meets_readExact (count : Nat) :
    Meets InMemory (readExact count)
      (fun data after =>
        InMemory after ∧ data.length = count ∧ count < 2 ^ 63)
      (fun failure _ =>
        failure.IsOf .corruptPayload ∧ count < 2 ^ 63 ∨
          failure = .refused .outOfRange ∧ 2 ^ 63 ≤ count) := by
  intro source inMemory
  have answers := Reader.answers_read count inMemory
  have handsOut := Reader.handsOut_read count source.reader
  have started : readExact count source =
      (mapFailure readExact.unreadable (Decoding.read count) >>= fun data =>
        if data.length < count then
          fail (.payloadCut count data.length) source.reader.tell?
        else
          pure data) source := rfl
  rw [started]
  cases outcome : source.reader.read count with
  | ok data reader =>
      rw [outcome] at answers handsOut
      have read : mapFailure readExact.unreadable (Decoding.read count)
          source = .ok data { source with reader } := by
        unfold mapFailure Decoding.read reading
        rw [outcome]
      rw [bind_of_eq_ok read]
      by_cases short : data.length < count
      · rw [if_pos short]
        exact .inl ⟨rfl, answers.2⟩
      · rw [if_neg short]
        exact ⟨answers.1,
          Nat.le_antisymm handsOut (Nat.le_of_not_lt short), answers.2⟩
  | error failure reader =>
      rw [outcome] at answers
      have read : mapFailure readExact.unreadable (Decoding.read count)
          source = .error (readExact.unreadable failure)
            { source with reader } := by
        unfold mapFailure Decoding.read reading
        rw [outcome]
      rw [bind_of_eq_error read]
      rcases answers.2 with ⟨isCut, small⟩ | ⟨rfl, large⟩
      · cases failure with
        | defect cause place =>
            have truncated : cause.failureClass = .truncatedStream := isCut
            refine .inl ⟨?_, small⟩
            rw [readExact.unreadable, if_pos truncated]
            rfl
        | refused other => cases isCut
        | source fault => cases isCut
      · exact .inr ⟨rfl, large⟩

theorem refuses_readExact_iff {count : Nat} (inMemory : InMemory source) :
    Refuses (readExact count) source refusal ↔
      refusal = .outOfRange ∧ 2 ^ 63 ≤ count := by
  have met := meets_readExact count source inMemory
  constructor
  · rintro ⟨after, refused⟩
    rw [refused] at met
    rcases met with ⟨isCut, _⟩ | ⟨same, large⟩
    · cases isCut
    · cases same
      exact ⟨rfl, large⟩
  · rintro ⟨rfl, large⟩
    cases outcome : readExact count source with
    | ok data after =>
        rw [outcome] at met
        exact absurd large (Nat.not_le_of_lt met.2.2)
    | error failure after =>
        rw [outcome] at met
        rcases met with ⟨_, small⟩ | ⟨rfl, _⟩
        · exact absurd large (Nat.not_le_of_lt small)
        · exact ⟨after, outcome⟩

/-- No array of the type has the shape: its elements have no size, it has too
many extents or too many bytes, or the number of elements is another one or goes
out of range before the last extent. -/
inductive Unshapable (type : Dtype) (shape : List Nat) : Prop
  | unsized : type.isUnsized = true → Unshapable type shape
  | line :
      NdArray.fits type.expand.2 (shape.prod :: type.expand.1) = false →
      Unshapable type shape
  | count :
      NdArray.completeShape? (shape.prod :: type.expand.1).prod
        (shape.map Int.ofNat) = none → Unshapable type shape
  | shape :
      NdArray.fits type.expand.2 shape = false → Unshapable type shape

/-- The elements take too many bytes or are too many, or those that have been
read make no array of the shape. -/
inductive ElementsEscape (header : Header) (source : Source) :
    Refusal → Prop
  | length :
      2 ^ 63 ≤ header.shape.prod * header.type.itemSize →
      ElementsEscape header source .outOfRange
  | count {data : Bytes} {after : Source} :
      readExact (header.shape.prod * header.type.itemSize) source =
        .ok data after →
      2 ^ 63 ≤ header.shape.prod →
      ElementsEscape header source .outOfRange
  | shape {data : Bytes} {after : Source} :
      readExact (header.shape.prod * header.type.itemSize) source =
        .ok data after →
      header.shape.prod < 2 ^ 63 → Unshapable header.type header.shape →
      ElementsEscape header source .badValue

/-- The array of elements in a line, brought into a shape. -/
def shaped (header : Header) (data : Bytes) : Except Refusal NdArray := do
  let line ←
    NdArray.ofBuffer header.type data (some header.shape.prod) false
  line.reshape (header.shape.map Int.ofNat) header.firstFastest

theorem completeShape?_natural {size : Nat} {shape extents : List Nat}
    (complete : NdArray.completeShape? size (shape.map Int.ofNat) =
      some extents) : extents = shape := by
  have natural : (shape.map Int.ofNat).filter (· < 0) = [] := by
    rw [List.filter_eq_nil_iff]
    intro extent member
    obtain ⟨number, _, rfl⟩ := List.mem_map.mp member
    simp
  have back : (shape.map Int.ofNat).map Int.toNat = shape := by
    rw [List.map_map]
    exact List.map_id shape
  unfold NdArray.completeShape? at complete
  obtain ⟨known, _, complete⟩ := Option.bind_eq_some_iff.mp complete
  rw [natural] at complete
  obtain ⟨_, _, complete⟩ := Option.bind_eq_some_iff.mp complete
  rw [back] at complete
  exact (Option.some.inj complete).symm

theorem maxSize_lt_iff {count : Nat} :
    NdArray.maxSize < (count : Int) ↔ 2 ^ 63 ≤ count := by
  rw [NdArray.maxSize_eq, Int.ofNat_lt]
  omega

theorem not_maxSize_lt {count : Nat} (small : count < 2 ^ 63) :
    decide (NdArray.maxSize < (count : Int)) = false :=
  decide_eq_false (mt maxSize_lt_iff.mp (Nat.not_le_of_lt small))

theorem ofBuffer_line {header : Header} {data : Bytes}
    (isRaw : header.type.hasObject = false)
    (isSized : header.type.isUnsized = false)
    (length : data.length = header.shape.prod * header.type.itemSize)
    (small : header.shape.prod < 2 ^ 63) :
    NdArray.ofBuffer header.type data (some header.shape.prod) false =
      if NdArray.fits header.type.expand.2
          (header.shape.prod :: header.type.expand.1) then
        .ok ⟨header.type.expand.2, header.shape.prod :: header.type.expand.1,
          .raw (data.take (header.shape.prod * header.type.itemSize)), false⟩
      else
        .error .badValue := by
  have enough : ¬ data.length < header.shape.prod * header.type.itemSize :=
    Nat.not_lt_of_le (Nat.le_of_eq length.symm)
  unfold NdArray.ofBuffer
  simp only [isRaw, isSized, Bool.or_self, Option.any_some,
    not_maxSize_lt small, if_neg Bool.false_ne_true, if_neg enough,
    Except.bind]

theorem reshape_eq_error_iff {array : NdArray} {shape : List Nat}
    {firstFastest : Bool} :
    array.reshape (shape.map Int.ofNat) firstFastest = .error refusal ↔
      refusal = .badValue ∧
        (NdArray.completeShape? array.size (shape.map Int.ofNat) = none ∨
          NdArray.fits array.type shape = false) := by
  unfold NdArray.reshape
  cases complete : NdArray.completeShape? array.size
      (shape.map Int.ofNat) with
  | none =>
      constructor
      · rintro ⟨⟩
        exact ⟨rfl, .inl rfl⟩
      · rintro ⟨rfl, _⟩
        rfl
  | some extents =>
      obtain rfl := completeShape?_natural complete
      cases fits : NdArray.fits array.type extents with
      | false =>
          simp only [fits, Bool.not_false, if_true]
          constructor
          · rintro ⟨⟩
            exact ⟨rfl, .inr trivial⟩
          · rintro ⟨rfl, _⟩
            rfl
      | true =>
          simp only [fits, Bool.not_true, if_neg Bool.false_ne_true]
          constructor
          · split
            · rintro ⟨⟩
            · rintro ⟨⟩
          · rintro ⟨_, impossible | impossible⟩
            · cases impossible
            · cases impossible

theorem ofBuffer_of_many {type : Dtype} {data : Bytes} {count : Nat}
    (large : 2 ^ 63 ≤ count) :
    NdArray.ofBuffer type data (some count) false = .error .outOfRange := by
  have outOfRange := decide_eq_true (maxSize_lt_iff.mpr large)
  unfold NdArray.ofBuffer
  simp only [Option.any_some, outOfRange, if_true]

theorem ofBuffer_of_isUnsized {type : Dtype} {data : Bytes} {count : Nat}
    (isUnsized : type.isUnsized = true) (small : count < 2 ^ 63) :
    NdArray.ofBuffer type data (some count) false = .error .badValue := by
  unfold NdArray.ofBuffer
  simp only [Option.any_some, not_maxSize_lt small, isUnsized, Bool.or_true,
    if_true, if_neg Bool.false_ne_true]

theorem shaped_eq_error_iff {header : Header} {data : Bytes}
    (isRaw : header.type.hasObject = false)
    (length : data.length = header.shape.prod * header.type.itemSize) :
    shaped header data = .error refusal ↔
      refusal = .outOfRange ∧ 2 ^ 63 ≤ header.shape.prod ∨
        refusal = .badValue ∧ header.shape.prod < 2 ^ 63 ∧
          Unshapable header.type header.shape := by
  unfold shaped
  by_cases large : 2 ^ 63 ≤ header.shape.prod
  · rw [ofBuffer_of_many large]
    constructor
    · rintro ⟨⟩
      exact .inl ⟨rfl, large⟩
    · rintro (⟨rfl, _⟩ | ⟨_, small, _⟩)
      · rfl
      · exact absurd large (Nat.not_le_of_lt small)
  have small : header.shape.prod < 2 ^ 63 := Nat.lt_of_not_le large
  have isBadValue :
      (refusal = .outOfRange ∧ 2 ^ 63 ≤ header.shape.prod ∨
        refusal = .badValue ∧ header.shape.prod < 2 ^ 63 ∧
          Unshapable header.type header.shape) ↔
      refusal = .badValue ∧ Unshapable header.type header.shape := by
    constructor
    · rintro (⟨_, exceeds⟩ | ⟨same, _, none⟩)
      · exact absurd exceeds large
      · exact ⟨same, none⟩
    · rintro ⟨same, none⟩
      exact .inr ⟨same, small, none⟩
  rw [isBadValue]
  cases isUnsized : header.type.isUnsized with
  | true =>
      rw [ofBuffer_of_isUnsized isUnsized small]
      constructor
      · rintro ⟨⟩
        exact ⟨rfl, .unsized isUnsized⟩
      · rintro ⟨rfl, _⟩
        rfl
  | false =>
      rw [ofBuffer_line isRaw isUnsized length small]
      cases fitsLine : NdArray.fits header.type.expand.2
          (header.shape.prod :: header.type.expand.1) with
      | false =>
          constructor
          · rintro ⟨⟩
            exact ⟨rfl, .line fitsLine⟩
          · rintro ⟨rfl, _⟩
            rfl
      | true =>
          rw [if_pos rfl]
          refine reshape_eq_error_iff.trans (and_congr_right fun _ => ?_)
          have size : NdArray.size ⟨header.type.expand.2,
              header.shape.prod :: header.type.expand.1,
              .raw (data.take (header.shape.prod * header.type.itemSize)),
              false⟩ = (header.shape.prod :: header.type.expand.1).prod := by
            rw [NdArray.size, foldl_mul_eq, Nat.one_mul]
          rw [size]
          constructor
          · rintro (noCount | noShape)
            · exact .count noCount
            · exact .shape noShape
          · rintro (unsized | noLine | noCount | noShape)
            · exact absurd (isUnsized.symm.trans unsized) Bool.noConfusion
            · exact absurd (fitsLine.symm.trans noLine) Bool.noConfusion
            · exact .inl noCount
            · exact .inr noShape

theorem refuses_readElements_iff {header : Header}
    (inMemory : InMemory source)
    (isRaw : header.type.hasObject = false) :
    Refuses (readElements header) source refusal ↔
      ElementsEscape header source refusal := by
  have count : header.shape.foldl (· * ·) 1 = header.shape.prod := by
    rw [foldl_mul_eq, Nat.one_mul]
  unfold readElements
  rw [if_neg (by rw [isRaw]; exact Bool.false_ne_true)]
  dsimp only
  rw [count, refuses_bind_iff, refuses_readExact_iff inMemory]
  have asked : ∀ {data : Bytes} {after : Source},
      readExact (header.shape.prod * header.type.itemSize) source =
        .ok data after →
      (Refuses (ask fun _ => shaped header data) after refusal ↔
        refusal = .outOfRange ∧ 2 ^ 63 ≤ header.shape.prod ∨
          refusal = .badValue ∧ header.shape.prod < 2 ^ 63 ∧
            Unshapable header.type header.shape) := by
    intro data after read
    rw [refuses_ask_iff]
    exact shaped_eq_error_iff isRaw
      ((meets_readExact _).of_ok inMemory read).2.1
  constructor
  · rintro (⟨rfl, large⟩ | ⟨data, after, read, refused⟩)
    · exact .length large
    · rcases (asked read).mp refused with ⟨rfl, many⟩ | ⟨rfl, few, none⟩
      · exact .count read many
      · exact .shape read few none
  · rintro (large | ⟨read, many⟩ | ⟨read, few, none⟩)
    · exact .inl ⟨rfl, large⟩
    · exact .inr ⟨_, _, read, (asked read).mpr (.inl ⟨rfl, many⟩)⟩
    · exact .inr ⟨_, _, read, (asked read).mpr (.inr ⟨rfl, few, none⟩)⟩

end Payload

end PickleGraph
