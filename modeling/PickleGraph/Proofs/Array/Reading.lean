import PickleGraph.Payload.Elements
import PickleGraph.Proofs.Array.Layout
import PickleGraph.Proofs.Decoding.Parallel
import PickleGraph.Proofs.Framing.Reader

/-!
# Payloads of raw elements

The elements behind a placeholder are read after a header, after a state that
gives their type, shape and order, or after padding, and those of a file after
the header of the file. What comes before the elements decides how they are
read and nothing else does.

A reader of any kind that offers certain bytes hands them out in portions of any
size. An action that draws on such readers gives the same result wherever the
bytes stand.
-/

/-! ## Supplies of bytes -/

namespace PickleGraph

open Actions

/-- The reader hands out these bytes next: they come from the file at the bottom,
or all of them from an open frame. -/
def Reader.Offers (bytes : Bytes) : Reader → Prop
  | file rest _ _ => bytes <+: rest
  | cursor below _ | unframer below _ none => below.Offers bytes
  | unframer below _ (some frame) =>
      bytes <+: frame.rest ∨ frame.rest = [] ∧ below.Offers bytes

namespace Reader

theorem Offers.read {data more : Bytes} {reader : Reader}
    (offers : reader.Offers (data ++ more)) (short : data.length < 2 ^ 63) :
    ∃ after : Reader, after.Offers more ∧
      reader.read data.length = .ok data after := by
  have natural : ¬ (data.length : Int) < 0 := by omega
  have inRange : (data.length : Int) < countLimit :=
    lt_countLimit_iff.mpr short
  induction reader with
  | file rest offset ending =>
      obtain ⟨others, rfl⟩ := offers
      rw [List.append_assoc]
      exact ⟨file (more ++ others) (offset + data.length) ending,
        List.prefix_append more others, read_file offset short⟩
  | cursor below position inductionHypothesis =>
      obtain ⟨after, offersMore, read⟩ := inductionHypothesis offers
      refine ⟨cursor after (position + data.length), offersMore, ?_⟩
      rw [Reader.read, if_neg natural, read, Int.toNat_natCast]
      exact exactly_of_ok cursor after
  | unframer below position frame inductionHypothesis =>
      have fromBelow : below.Offers (data ++ more) →
          ∃ after : Reader, after.Offers more ∧
            (unframer below position none).read data.length =
              .ok data after := by
        intro offers
        obtain ⟨after, offersMore, read⟩ := inductionHypothesis offers
        exact ⟨unframer after (position + data.length) none, offersMore,
          read_unframed_eq_ok_iff.mpr ⟨after, read, Nat.le_refl _, rfl⟩⟩
      cases frame with
      | none => exact fromBelow offers
      | some frame =>
          rw [exists_congr fun after =>
            and_congr_right fun _ => read_framed_eq_ok_iff inRange]
          rcases offers with ⟨others, held⟩ | ⟨isSpent, offers⟩
          · rw [List.append_assoc] at held
            refine ⟨unframer below position (some (frame.skip data.length)),
              .inl ⟨others, ?_⟩, .inr ⟨_, held.symm, rfl, rfl⟩⟩
            show more ++ others = frame.rest.drop data.length
            rw [← held, List.drop_left]
          · cases data with
            | nil =>
                refine ⟨unframer below position (some (frame.skip 0)),
                  .inr ⟨?_, offers⟩, .inr ⟨frame.rest, rfl, rfl, rfl⟩⟩
                rw [Frame.skip, isSpent, List.drop_nil]
            | cons byte rest =>
                obtain ⟨after, offersMore, read⟩ := fromBelow offers
                exact ⟨after, offersMore,
                  .inl ⟨isSpent, Nat.succ_ne_zero _, read⟩⟩

end Reader

namespace Decoding

variable {α β : Type} {heap middle after : Heap}

/-- From a heap the action takes the bytes for the result and leaves another
heap. -/
def Draws (action : Decoding α) (bytes : Bytes) (heap : Heap) (result : α)
    (after : Heap) : Prop :=
  ∀ (more : Bytes) (reader : Reader), reader.Offers (bytes ++ more) →
    ∃ further : Reader, further.Offers more ∧
      action ⟨reader, heap⟩ = .ok result ⟨further, after⟩

namespace Draws

theorem pure (result : α) :
    Draws (Pure.pure result) [] heap result heap :=
  fun _ reader offers => ⟨reader, offers, rfl⟩

theorem bind {action : Decoding α} {next : α → Decoding β}
    {bytes others : Bytes} {value : α} {result : β}
    (first : Draws action bytes heap value middle)
    (second : Draws (next value) others middle result after) :
    Draws (action >>= next) (bytes ++ others) heap result after := by
  intro more reader offers
  rw [List.append_assoc] at offers
  obtain ⟨further, offersOthers, done⟩ := first _ reader offers
  obtain ⟨last, offersMore, finished⟩ := second more further offersOthers
  exact ⟨last, offersMore, (bind_of_eq_ok done).trans finished⟩

/-- An action that takes nothing may come first. -/
theorem nil_bind {action : Decoding α} {next : α → Decoding β}
    {bytes : Bytes} {value : α} {result : β}
    (first : Draws action [] heap value middle)
    (second : Draws (next value) bytes middle result after) :
    Draws (action >>= next) bytes heap result after :=
  bind first second

/-- An action that takes nothing may come last. -/
theorem bind_nil {action : Decoding α} {next : α → Decoding β}
    {bytes : Bytes} {value : α} {result : β}
    (first : Draws action bytes heap value middle)
    (second : Draws (next value) [] middle result after) :
    Draws (action >>= next) bytes heap result after := by
  have both := bind first second
  rwa [List.append_nil] at both

theorem tell {next : Option Nat → Decoding β} {bytes : Bytes} {result : β}
    (rest : ∀ place, Draws (next place) bytes heap result after) :
    Draws (tell? >>= next) bytes heap result after :=
  fun more reader offers => rest reader.tell? more reader offers

theorem heap_bind {next : Heap → Decoding β} {bytes : Bytes} {result : β}
    (rest : Draws (next heap) bytes heap result after) :
    Draws (Decoding.heap >>= next) bytes heap result after :=
  rest

theorem mapFailure {action : Decoding α} {bytes : Bytes} {result : α}
    (change : Failure → Failure) (draws : Draws action bytes heap result after) :
    Draws (Decoding.mapFailure change action) bytes heap result after := by
  intro more reader offers
  obtain ⟨further, offersMore, done⟩ := draws more reader offers
  exact ⟨further, offersMore, mapFailure_eq_ok_iff.mpr done⟩

theorem read {data : Bytes} (short : data.length < 2 ^ 63) :
    Draws (Decoding.read data.length) data heap data heap := by
  intro more reader offers
  obtain ⟨further, offersMore, done⟩ := offers.read short
  exact ⟨further, offersMore,
    reading_eq_ok_iff.mpr ⟨further, done, rfl⟩⟩

theorem query {answer : Heap → Except Failure α} {result : α}
    (answered : answer heap = .ok result) :
    Draws (Decoding.query answer) [] heap result heap := by
  intro more reader offers
  refine ⟨reader, offers, ?_⟩
  simp only [Decoding.query, answered]

theorem ask {answer : Heap → Except Refusal α} {result : α}
    (answered : answer heap = .ok result) :
    Draws (Decoding.ask answer) [] heap result heap := by
  intro more reader offers
  refine ⟨reader, offers, ?_⟩
  simp only [Decoding.ask, answered]

theorem make {change : Heap → Except Refusal (α × Heap)} {result : α}
    (made : change heap = .ok (result, after)) :
    Draws (Decoding.make change) [] heap result after := by
  intro more reader offers
  refine ⟨reader, offers, ?_⟩
  simp only [Decoding.make, Decoding.build, made]
  rfl

theorem alloc (object : Object) :
    Draws (Decoding.alloc object) [] heap (heap.alloc object).1
      (heap.alloc object).2 :=
  fun _ reader offers => ⟨reader, offers, rfl⟩

end Draws

end Decoding

end PickleGraph

namespace PickleGraph.Payload

open Actions Decoding

variable {type : Dtype} {shape : List Nat} {firstFastest : Bool}
variable {data : Bytes} {heap after : Heap} {names : CharacterNames}

/-! ## Parts -/

theorem draws_readExact (short : data.length < 2 ^ 63) :
    Draws (readExact data.length) data heap data heap := by
  refine .tell fun place => .bind_nil (.mapFailure _ (.read short)) ?_
  rw [if_neg (Nat.lt_irrefl _)]
  exact .pure data

theorem draws_readElements (isRaw : type.IsRaw) (admits : type.Admits shape)
    (length : data.length = shape.prod * type.itemSize) :
    Draws (readElements ⟨type, shape, firstFastest⟩) data heap
      (NdArray.ofListing type shape firstFastest data) heap := by
  have count : shape.foldl (· * ·) 1 = shape.prod := by
    rw [foldl_mul_eq, Nat.one_mul]
  have short : data.length < 2 ^ 63 := length ▸ admits.prod_mul_lt
  unfold readElements
  simp only [isRaw.hasObject, if_neg Bool.false_ne_true, count]
  rw [← length]
  refine .bind_nil (draws_readExact short) (.ask ?_)
  rw [NdArray.ofBuffer_count isRaw admits length]
  exact NdArray.reshape_line isRaw admits firstFastest data

theorem draws_allocArray (array : NdArray) :
    Draws (allocArray array) [] heap (heap.alloc (.array array)).1
      (heap.alloc (.array array)).2 :=
  .alloc _

theorem draws_checkShape {value : Value}
    (isShape : shapeOf? heap value = some shape) (place : Option Nat) :
    Draws (checkShape value place) [] heap shape heap := by
  refine .heap_bind ?_
  rw [isShape]
  exact .pure shape

/-- Padding starts with the number of the bytes that follow. -/
theorem draws_skipPadding {padding : Bytes} (few : padding.length ≤ 255) :
    Draws skipPadding (UInt8.ofNat padding.length :: padding) heap () heap := by
  have length : (UInt8.ofNat padding.length).toNat = padding.length :=
    Nat.mod_eq_of_lt (Nat.lt_succ_of_le few)
  have single : [UInt8.ofNat padding.length].length < 2 ^ 63 := by
    simp
  have first : Draws (readExact 1) [UInt8.ofNat padding.length] heap
      [UInt8.ofNat padding.length] heap :=
    draws_readExact single
  refine .bind first ?_
  dsimp only
  split
  · rw [length]
    exact .bind_nil (draws_readExact (by omega)) (.pure _)
  · next isZero =>
      have isEmpty : padding = [] := by
        rw [Decidable.not_not.mp isZero] at length
        exact List.length_eq_zero_iff.mp length.symm
      rw [isEmpty]
      exact .pure ()

theorem draws_orderFlag :
    Draws
      (orderFlag (.str (Text.ofString (if firstFastest then "F" else "C"))))
      [] heap firstFastest heap := by
  cases firstFastest with
  | true => exact .nil_bind (.ask rfl) (.pure true)
  | false => exact .nil_bind (.ask rfl) (.nil_bind (.ask rfl) (.pure false))

/-! ## Headers -/

/-- In a heap the text denotes a mapping that gives a header, and leaves another
heap. -/
def Denotes (names : CharacterNames) (text : Text) (heap : Heap)
    (header : Header) (after : Heap) : Prop :=
  ∃ literal value made entries description shape described,
    Literal.parse? names text = some literal ∧
      literal.evaluate heap = .ok (value, made) ∧
      made.entries? value = some entries ∧
      Entries.findText? "descr" entries = some description ∧
      Entries.findText? "fortran_order" entries =
        some (.bool header.firstFastest) ∧
      Entries.findText? "shape" entries = some shape ∧
      shapeOf? made shape = some header.shape ∧
      Draws (withTupleFields description) [] made described after ∧
      after.payloadDtype described = .ok header.type

/-- The bytes before the elements of an array file: the mark, a version, the
length of a text and the text itself, which denotes a header. -/
def IsHeader (names : CharacterNames) (bytes : Bytes) (heap : Heap)
    (header : Header) (after : Heap) : Prop :=
  ∃ major minor width content text,
    lengthWidth? (UInt8.toNat major) = some width ∧
      content.length < 256 ^ width ∧
      headerText (headerCharset (UInt8.toNat major)) content = .ok text ∧
      Denotes names text heap header after ∧
      bytes = magic ++ ([major, minor] ++
        (Bytes.ofNatLE width content.length ++ content))

theorem draws_literalValue {text : Text} {literal : Literal} {value : Value}
    (parsed : Literal.parse? names text = some literal)
    (made : literal.evaluate heap = .ok (value, after)) (place : Option Nat) :
    Draws (literalValue names place text) [] heap value after := by
  unfold literalValue
  rw [parsed]
  exact .mapFailure _ (.make made)

theorem draws_headerOf {entries : List (Value × Value)} {header : Header}
    {description extents described : Value}
    (descr : Entries.findText? "descr" entries = some description)
    (order : Entries.findText? "fortran_order" entries =
      some (.bool header.firstFastest))
    (hasShape : Entries.findText? "shape" entries = some extents)
    (isShape : shapeOf? heap extents = some header.shape)
    (tupled : Draws (withTupleFields description) [] heap described after)
    (isType : after.payloadDtype described = .ok header.type)
    (place : Option Nat) (missing : Cause) :
    Draws (headerOf entries place missing) [] heap header after := by
  unfold headerOf
  simp only [descr, order, hasShape]
  refine .nil_bind (draws_checkShape isShape place) ?_
  exact .nil_bind tupled (.nil_bind (.query isType) (.pure _))

theorem draws_readHeader {bytes : Bytes} {header : Header}
    (isHeader : IsHeader names bytes heap header after) :
    Draws (readHeader names) bytes heap header after := by
  obtain ⟨major, minor, width, content, text, isWidth, fits, isText, denotes,
    rfl⟩ := isHeader
  obtain ⟨literal, value, made, entries, description, extents, described,
    parsed, evaluated, isMapping, descr, order, hasShape, isShape, tupled,
    isType⟩ := denotes
  have narrow : width ≤ 4 := by
    unfold lengthWidth? at isWidth
    split at isWidth <;> simp_all
    · omega
  have short : content.length < 2 ^ 63 :=
    calc content.length
      _ < 256 ^ width := fits
      _ ≤ 256 ^ 4 := Nat.pow_le_pow_right (by decide) narrow
      _ < 2 ^ 63 := by decide
  have mark : Draws (readExact magic.length) magic heap magic heap :=
    draws_readExact (by decide)
  have version : Draws (readExact 2) [major, minor] heap [major, minor]
      heap := by
    have few : [major, minor].length < 2 ^ 63 := by simp
    exact draws_readExact few
  have length : Draws (readExact width) (Bytes.ofNatLE width content.length)
      heap (Bytes.ofNatLE width content.length) heap := by
    have size := Bytes.length_ofNatLE width content.length
    have few : (Bytes.ofNatLE width content.length).length < 2 ^ 63 := by
      omega
    have drawn : Draws _ _ heap _ heap := draws_readExact few
    rw [size] at drawn
    exact drawn
  refine .tell fun place => .bind mark ?_
  rw [if_neg (not_not_intro rfl)]
  refine .bind version ?_
  simp only [List.headD_cons, isWidth]
  refine .bind length ?_
  rw [Bytes.toNatLE_ofNatLE width _ fits]
  refine .bind_nil (draws_readExact short) ?_
  simp only [isText]
  refine .nil_bind (draws_literalValue parsed evaluated place) ?_
  refine .heap_bind ?_
  simp only [isMapping]
  exact draws_headerOf descr order hasShape isShape tupled isType place _

/-! ## Payloads -/

/-- A value of the heap that is an array. -/
theorem array?_alloc (heap : Heap) (array : NdArray) :
    (heap.alloc (.array array)).2.array? (heap.alloc (.array array)).1 =
      some array := by
  have here : (heap.alloc (.array array)).2.get heap.objects.size =
      .array array :=
    Heap.get_alloc_self heap _
  simp only [Heap.array?, Heap.alloc] at here ⊢
  rw [here]

/-- The action gives the array from the bytes. -/
def Gives (action : Decoding Value) (bytes : Bytes) (heap : Heap)
    (array : NdArray) : Prop :=
  ∃ value after, Draws action bytes heap value after ∧
    after.array? value = some array

theorem gives_elements (isRaw : type.IsRaw) (admits : type.Admits shape)
    (length : data.length = shape.prod * type.itemSize) :
    Gives (do allocArray (← readElements ⟨type, shape, firstFastest⟩)) data
      heap (NdArray.ofListing type shape firstFastest data) :=
  ⟨_, _, .bind_nil (draws_readElements isRaw admits length)
    (draws_allocArray _), array?_alloc heap _⟩

theorem draws_readHeaded {bytes : Bytes} (isRaw : type.IsRaw)
    (admits : type.Admits shape)
    (length : data.length = shape.prod * type.itemSize)
    (isHeader : IsHeader names bytes heap ⟨type, shape, firstFastest⟩ after) :
    Draws (readHeaded names) (bytes ++ data) heap
      (NdArray.ofListing type shape firstFastest data) after :=
  .bind (draws_readHeader isHeader) (draws_readElements isRaw admits length)

/-- A placeholder without a type or a shape stands before a header. -/
theorem gives_headed {bytes : Bytes} {record : Record}
    (isRaw : type.IsRaw) (admits : type.Admits shape)
    (length : data.length = shape.prod * type.itemSize)
    (isHeader : IsHeader names bytes heap ⟨type, shape, firstFastest⟩ after)
    (isEmpty : record.field? "dtype" = none ∨ record.field? "shape" = none)
    (nested : Decoding Value) :
    Gives (readInline names record nested) (bytes ++ data) heap
      (NdArray.ofListing type shape firstFastest data) := by
  have headed : readInline names record nested =
      (do allocArray (← (readHeaded names))) := by
    unfold readInline
    split
    · next isType isShape =>
        rw [isType, isShape] at isEmpty
        rcases isEmpty with noType | noShape
        · cases noType
        · cases noShape
    · rfl
  rw [headed]
  exact ⟨_, _, .bind_nil (draws_readHeaded isRaw admits length isHeader)
    (draws_allocArray _), array?_alloc after _⟩

/-- The fields of a placeholder give a type, a shape and an order. -/
structure Declares (record : Record) (heap : Heap) (header : Header) :
    Prop where
  isType : ∃ value, record.field? "dtype" = some value ∧
    heap.payloadDtype value = .ok header.type
  isShape : ∃ value, record.field? "shape" = some value ∧
    shapeOf? heap value = some header.shape
  isOrder : (record.field? "order").getD (.str (Text.ofString "C")) =
    .str (Text.ofString (if header.firstFastest then "F" else "C"))

/-- What a placeholder announces between itself and its elements: nothing, or up
to 255 bytes of padding after their number. -/
def IsPadding (record : Record) (bytes : Bytes) : Prop :=
  record.field "numpy_array_alignment_bytes" = .none ∧ bytes = [] ∨
    record.field "numpy_array_alignment_bytes" ≠ .none ∧
      ∃ padding : Bytes, padding.length ≤ 255 ∧
        bytes = UInt8.ofNat padding.length :: padding

/-- A placeholder with a type and a shape stands before its padding and its
elements. -/
theorem gives_declared {record : Record} {padding : Bytes}
    (isRaw : type.IsRaw) (admits : type.Admits shape)
    (length : data.length = shape.prod * type.itemSize)
    (declares : Declares record heap ⟨type, shape, firstFastest⟩)
    (isPadding : IsPadding record padding)
    (nested : Decoding Value) :
    Gives (readInline names record nested) (padding ++ data) heap
      (NdArray.ofListing type shape firstFastest data) := by
  obtain ⟨⟨typeValue, hasType, isType⟩, ⟨shapeValue, hasShape, isShape⟩,
    isOrder⟩ := declares
  have gives : Gives
      (do allocArray (← readElements ⟨type, shape, firstFastest⟩)) data heap
      (NdArray.ofListing type shape firstFastest data) :=
    gives_elements isRaw admits length
  obtain ⟨value, after, elements, isArray⟩ := gives
  refine ⟨value, after, ?_, isArray⟩
  unfold readInline
  simp only [hasType, hasShape, isOrder]
  refine .nil_bind (.query isType) (.tell fun place => ?_)
  refine .nil_bind (draws_checkShape isShape place) ?_
  refine .nil_bind draws_orderFlag ?_
  rw [isRaw.hasObject, if_neg Bool.false_ne_true]
  rcases isPadding with ⟨isAbsent, rfl⟩ | ⟨isPresent, bytes, few, rfl⟩
  · rw [isAbsent]
    exact elements
  · split
    · next isAbsent => exact absurd isAbsent isPresent
    · exact .bind (draws_skipPadding few) elements

/-- A placeholder that names a file stands for the array in the file. -/
theorem gives_sibling {bytes : Bytes} {record : Record} {fileName : Text}
    {siblings : Siblings} {reader : Reader}
    (isRaw : type.IsRaw) (admits : type.Admits shape)
    (length : data.length = shape.prod * type.itemSize)
    (isHeader : IsHeader names bytes heap ⟨type, shape, firstFastest⟩ after)
    (isNamed : (record.field "filename").text? = some fileName)
    (isOpen : siblings fileName = .ok reader) {more : Bytes}
    (offers : reader.Offers (bytes ++ data ++ more)) :
    Gives (readSibling names record (some siblings)) [] heap
      (NdArray.ofListing type shape firstFastest data) := by
  refine ⟨_, _, ?_, array?_alloc after _⟩
  have read : Draws (onReader reader (readHeaded names)) [] heap
      (NdArray.ofListing type shape firstFastest data) after := by
    intro others place offersOthers
    obtain ⟨further, _, done⟩ :=
      draws_readHeaded isRaw admits length isHeader more reader offers
    exact ⟨place, offersOthers, onReader_eq_ok_iff.mpr ⟨_, done, rfl⟩⟩
  unfold readSibling
  simp only [isNamed, isOpen]
  exact .bind_nil read (draws_allocArray _)

end PickleGraph.Payload
