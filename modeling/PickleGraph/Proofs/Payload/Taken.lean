import PickleGraph.Proofs.Payload.Pickle

/-!
# What payloads take

An array that is read from a stream takes a header and its elements, or padding
and elements, or a pickle inside. These bytes are the first of those that come
next, whether frames hold them or not, and what follows them comes next.
-/

namespace PickleGraph

open Actions

/-! ## Numbers of a fixed width -/

theorem Bytes.ofNatLE_toNatLE (bytes : Bytes) :
    Bytes.ofNatLE bytes.length (Bytes.toNatLE bytes) = bytes := by
  induction bytes with
  | nil => rfl
  | cons byte rest inductionHypothesis =>
      have bound := byte.toNat_lt
      have low : UInt8.ofNat (byte.toNat + 256 * toNatLE rest) = byte := by
        rw [UInt8.ofNat_add, UInt8.ofNat_toNat, UInt8.ofNat_mul]
        exact (congrArg (byte + ·) (UInt8.zero_mul)).trans (UInt8.add_zero _)
      have high : (byte.toNat + 256 * toNatLE rest) / 256 = toNatLE rest := by
        omega
      rw [List.length_cons, toNatLE, ofNatLE, low, high, inductionHypothesis]

/-! ## Bytes that are passed -/

namespace Source

variable {source middle after : Source} {bytes others : Bytes}

/-- The bytes were the first of those that came next, and the rest of them comes
next now. -/
def Passes (source : Source) (bytes : Bytes) (after : Source) : Prop :=
  source.reader.pending = bytes ++ after.reader.pending

theorem Passes.nil (same : after.reader = source.reader) :
    source.Passes [] after := by
  rw [Passes, same, List.nil_append]

theorem Passes.append (first : source.Passes bytes middle)
    (second : middle.Passes others after) :
    source.Passes (bytes ++ others) after := by
  rw [Passes, List.append_assoc, ← second]
  exact first

end Source

namespace Payload

open Decoding

variable {source after : Source} {record : Record}
variable {names : CharacterNames}

/-! ## Padding and elements -/

theorem readExact_passes {count : Nat} {data : Bytes}
    (success : readExact count source = .ok data after) :
    source.Passes data after ∧ data.length = count ∧
      after.heap = source.heap := by
  obtain ⟨place, start, told, success⟩ := bind_eq_ok_iff.mp success
  cases told
  obtain ⟨found, middle, mapped, success⟩ := bind_eq_ok_iff.mp success
  obtain ⟨reader, read, rfl⟩ :=
    reading_eq_ok_iff.mp (mapFailure_eq_ok_iff.mp mapped)
  obtain ⟨whole, short⟩ := Reader.read_pending read
  split at success
  · cases success
  · next enough =>
      cases success
      exact ⟨whole, Nat.le_antisymm short (Nat.le_of_not_lt enough), rfl⟩

theorem skipPadding_passes (success : skipPadding source = .ok () after) :
    ∃ padding : Bytes, padding.length ≤ 255 ∧
      source.Passes (UInt8.ofNat padding.length :: padding) after ∧
      after.heap = source.heap := by
  obtain ⟨counter, middle, read, success⟩ := bind_eq_ok_iff.mp success
  obtain ⟨counted, single, sameHeap⟩ := readExact_passes read
  obtain ⟨first, rfl⟩ := List.length_eq_one_iff.mp single
  dsimp only at success
  split at success
  · obtain ⟨padding, last, read, done⟩ := bind_eq_ok_iff.mp success
    cases done
    obtain ⟨padded, length, stillHeap⟩ := readExact_passes read
    have few : first.toNat ≤ 255 := Nat.le_of_lt_succ first.toNat_lt
    refine ⟨padding, length ▸ few, ?_, stillHeap.trans sameHeap⟩
    rw [length, UInt8.ofNat_toNat]
    exact counted.append padded
  · next isZero =>
      cases success
      refine ⟨[], Nat.zero_le _, ?_, sameHeap⟩
      rw [Decidable.not_not.mp isZero] at counted
      exact counted

theorem skipAlignment_of_present
    (isPresent : record.field "numpy_array_alignment_bytes" ≠ .none) :
    skipAlignment record = skipPadding := by
  unfold skipAlignment
  split
  · next isAbsent => exact absurd isAbsent isPresent
  · rfl

theorem skipAlignment_passes
    (success : skipAlignment record source = .ok () after) :
    ∃ padding, IsPadding record padding ∧ source.Passes padding after ∧
      after.heap = source.heap := by
  by_cases isAbsent : record.field "numpy_array_alignment_bytes" = .none
  · unfold skipAlignment at success
    rw [isAbsent] at success
    cases success
    exact ⟨[], .inl ⟨isAbsent, rfl⟩, .nil rfl, rfl⟩
  · rw [skipAlignment_of_present isAbsent] at success
    obtain ⟨padding, few, passes, sameHeap⟩ := skipPadding_passes success
    exact ⟨_, .inr ⟨isAbsent, padding, few, rfl⟩, passes, sameHeap⟩

theorem readElements_passes {header : Header} {array : NdArray}
    (success : readElements header source = .ok array after) :
    header.type.hasObject = false ∧
      ∃ data : Bytes,
        data.length = header.shape.prod * header.type.itemSize ∧
          source.Passes data after := by
  have count : header.shape.foldl (· * ·) 1 = header.shape.prod := by
    rw [foldl_mul_eq, Nat.one_mul]
  unfold readElements at success
  split at success
  · obtain ⟨_, _, _, failed⟩ := bind_eq_ok_iff.mp success
    cases failed
  · next isRaw =>
      obtain ⟨data, middle, read, asked⟩ := bind_eq_ok_iff.mp success
      obtain ⟨passes, length, _⟩ := readExact_passes read
      obtain ⟨_, rfl⟩ := ask_eq_ok_iff.mp asked
      exact ⟨Bool.eq_false_iff.mpr isRaw, data, count ▸ length, passes⟩

/-! ## Headers -/

/-- The fields of a description are found without looking at the reader. -/
theorem withTupleFields_draws {value described : Value}
    (success : withTupleFields value source = .ok described after) :
    after.reader = source.reader ∧
      Draws (withTupleFields value) [] source.heap described after.heap := by
  have elsewhere : ∀ reader : Reader, after.reader = source.reader ∧
      withTupleFields value ⟨reader, source.heap⟩ =
        .ok described ⟨reader, after.heap⟩ := by
    intro reader
    let stand := fun first second => first = source.reader ∧ second = reader
    have mirrors : Mirrors stand .empty _ _ _ :=
      mirrors_withTupleFields .empty value
    have start : Source.Mirrors stand .empty source ⟨reader, source.heap⟩ :=
      ⟨⟨rfl, rfl⟩, source.heap.atop_empty.symm⟩
    obtain ⟨⟨later, objects⟩, again, ends⟩ := mirrors _ _ _ _ start success
    obtain ⟨same, rfl⟩ := ends.reader
    obtain rfl : objects = after.heap := ends.heap.trans after.heap.atop_empty
    rw [value.shifted_empty, described.shifted_empty] at again
    exact ⟨same, again⟩
  refine ⟨(elsewhere source.reader).1, fun more reader offers => ?_⟩
  exact ⟨reader, offers, (elsewhere reader).2⟩

theorem headerOf_draws {entries : List (Value × Value)} {place : Option Nat}
    {missing : Cause} {header : Header}
    (success : headerOf entries place missing source = .ok header after) :
    ∃ description shape described,
      Entries.findText? "descr" entries = some description ∧
        Entries.findText? "fortran_order" entries =
          some (.bool header.firstFastest) ∧
        Entries.findText? "shape" entries = some shape ∧
        shapeOf? source.heap shape = some header.shape ∧
        after.reader = source.reader ∧
        Draws (withTupleFields description) [] source.heap described
          after.heap ∧
        after.heap.payloadDtype described = .ok header.type := by
  unfold headerOf at success
  dsimp only at success
  cases descr : Entries.findText? "descr" entries with
  | none =>
      rw [descr] at success
      cases success
  | some description =>
  cases hasOrder : Entries.findText? "fortran_order" entries with
  | none =>
      rw [descr, hasOrder] at success
      cases success
  | some order =>
  cases hasShape : Entries.findText? "shape" entries with
  | none =>
      rw [descr, hasOrder, hasShape] at success
      cases success
  | some shape =>
  rw [descr, hasOrder, hasShape] at success
  obtain ⟨extents, _, checked, ordered⟩ := bind_eq_ok_iff.mp success
  obtain ⟨isShape, rfl⟩ := checkShape_eq_ok_iff.mp checked
  cases order with
  | bool firstFastest =>
      obtain ⟨described, last, tupled, typed⟩ := bind_eq_ok_iff.mp ordered
      obtain ⟨type, _, queried, done⟩ := bind_eq_ok_iff.mp typed
      obtain ⟨isType, rfl⟩ := query_eq_ok_iff.mp queried
      cases done
      obtain ⟨sameReader, draws⟩ := withTupleFields_draws tupled
      exact ⟨description, shape, described, rfl, rfl, rfl, isShape,
        sameReader, draws, isType⟩
  | _ =>
      obtain ⟨_, _, _, failed⟩ := bind_eq_ok_iff.mp ordered
      cases failed

theorem headerOfText_denotes {place : Option Nat} {text : Text}
    {header : Header}
    (success : headerOfText names place text source = .ok header after) :
    after.reader = source.reader ∧
      Denotes names text source.heap header after.heap := by
  obtain ⟨value, middle, meant, found⟩ := bind_eq_ok_iff.mp success
  obtain ⟨literal, made, parsed, evaluated, rfl⟩ :=
    literalValue_eq_ok_iff.mp meant
  rw [heap_bind] at found
  cases isMapping : made.entries? value with
  | none =>
      rw [isMapping] at found
      cases found
  | some entries =>
      rw [isMapping] at found
      obtain ⟨description, shape, described, descr, hasOrder, hasShape,
        isShape, sameReader, draws, isType⟩ := headerOf_draws found
      exact ⟨sameReader, literal, value, made, entries, description, shape,
        described, parsed, evaluated, isMapping, descr, hasOrder, hasShape,
        isShape, draws, isType⟩

theorem readHeader_passes {header : Header}
    (success : readHeader names source = .ok header after) :
    ∃ bytes, IsHeader names bytes source.heap header after.heap ∧
      source.Passes bytes after := by
  rw [readHeader_eq] at success
  obtain ⟨⟨place, text⟩, last, success, denoted⟩ := bind_eq_ok_iff.mp success
  obtain ⟨sameReader, denotes⟩ := headerOfText_denotes denoted
  obtain ⟨_, _, told, success⟩ := bind_eq_ok_iff.mp success
  cases told
  obtain ⟨found, second, read, success⟩ := bind_eq_ok_iff.mp success
  obtain ⟨marked, _, heapAtMark⟩ := readExact_passes read
  split at success
  · cases success
  next isMagic =>
  obtain rfl : found = magic := Decidable.not_not.mp isMagic
  obtain ⟨version, third, read, success⟩ := bind_eq_ok_iff.mp success
  obtain ⟨versioned, pair, heapAtVersion⟩ := readExact_passes read
  obtain ⟨major, minor, rfl⟩ := List.length_eq_two.mp pair
  rw [List.headD_cons] at success
  cases isWidth : lengthWidth? major.toNat with
  | none =>
      rw [isWidth] at success
      cases success
  | some width =>
  rw [isWidth] at success
  obtain ⟨size, fourth, read, success⟩ := bind_eq_ok_iff.mp success
  obtain ⟨sized, length, heapAtSize⟩ := readExact_passes read
  obtain ⟨content, fifth, read, success⟩ := bind_eq_ok_iff.mp success
  obtain ⟨filled, count, heapAtEnd⟩ := readExact_passes read
  cases isText : headerText (headerCharset major.toNat) content with
  | error cause =>
      rw [isText] at success
      cases success
  | ok found =>
  rw [isText] at success
  cases success
  have fits : content.length < 256 ^ width := by
    rw [count, ← length]
    exact Bytes.toNatLE_lt size
  have isSize : size = Bytes.ofNatLE width content.length := by
    rw [count, ← length, Bytes.ofNatLE_toNatLE]
  rw [heapAtEnd, heapAtSize, heapAtVersion, heapAtMark] at denotes
  refine ⟨_, ⟨major, minor, width, content, text, isWidth, fits, isText,
    denotes, rfl⟩, ?_⟩
  have ends : last.Passes [] after := .nil sameReader
  have whole := marked.append (versioned.append (sized.append filled))
  rw [← isSize, ← List.append_nil (magic ++ _)]
  exact whole.append ends

/-! ## Payloads -/

/-- The bytes behind a placeholder that make its array: a header and the
elements that it describes, padding and the elements that the placeholder
announces, or a whole pickle in place of elements that are objects. -/
inductive IsPayload (options : Options) (record : Record) (source : Source) :
    Bytes → Prop
  | headed {header : Header} {bytes data : Bytes} {after : Heap} :
      record.field? "dtype" = none ∨ record.field? "shape" = none →
      IsHeader options.names bytes source.heap header after →
      data.length = header.shape.prod * header.type.itemSize →
      IsPayload options record source (bytes ++ data)
  | announced {header : Header} {padding data : Bytes} :
      Announces record source header → header.type.hasObject = false →
      IsPadding record padding →
      data.length = header.shape.prod * header.type.itemSize →
      IsPayload options record source (padding ++ data)
  | pickle {header : Header} {bytes : Bytes} {value : Value} {after : Heap} :
      Announces record source header → header.type.hasObject = true →
      Execution.IsPickle options bytes source.heap value after →
      IsPayload options record source bytes

variable {options : Options} {array : Value}

theorem announces_of_readInline {nested : Decoding Value}
    {type shape : Value} (hasType : record.field? "dtype" = some type)
    (hasShape : record.field? "shape" = some shape)
    (success : readInline names record nested source = .ok array after) :
    ∃ header, Announces record source header ∧
      readAnnounced record nested header source = .ok array after := by
  rw [readInline_of_fields hasType hasShape] at success
  obtain ⟨element, _, queried, found⟩ := bind_eq_ok_iff.mp success
  obtain ⟨isType, same⟩ := query_eq_ok_iff.mp queried
  rw [same] at found
  obtain ⟨_, _, told, placed⟩ := bind_eq_ok_iff.mp found
  cases told
  obtain ⟨extents, _, checked, ordered⟩ := bind_eq_ok_iff.mp placed
  obtain ⟨isShape, same⟩ := checkShape_eq_ok_iff.mp checked
  rw [same] at ordered
  obtain ⟨firstFastest, middle, named, rest⟩ := bind_eq_ok_iff.mp ordered
  have quiet := quiet_orderFlag (orderField record) source
  rw [named] at quiet
  have unmoved : source = middle := quiet
  rw [← unmoved] at named rest
  exact ⟨⟨element, extents, firstFastest⟩,
    ⟨⟨type, hasType, isType⟩, ⟨shape, hasShape, isShape⟩, named⟩, rest⟩

theorem allocArray_passes {action : Decoding NdArray}
    (success : (action >>= allocArray) source = .ok array after) :
    ∃ content middle, action source = .ok content middle ∧
      middle.Passes [] after := by
  obtain ⟨content, middle, read, allocated⟩ := bind_eq_ok_iff.mp success
  cases allocated
  exact ⟨content, middle, read, .nil rfl⟩

/-- The bytes that an array takes from a stream are its payload. -/
theorem readInline_passes
    (success : readInline options.names record (Execution.nestedPickle options) source =
      .ok array after) :
    ∃ payload, IsPayload options record source payload ∧
      source.Passes payload after := by
  by_cases isEmpty :
      record.field? "dtype" = none ∨ record.field? "shape" = none
  · rw [readInline_of_header isEmpty] at success
    obtain ⟨content, last, success, ends⟩ := allocArray_passes success
    obtain ⟨header, middle, read, success⟩ := bind_eq_ok_iff.mp success
    obtain ⟨bytes, isHeader, headed⟩ := readHeader_passes read
    obtain ⟨_, data, length, filled⟩ := readElements_passes success
    refine ⟨_, .headed isEmpty isHeader length, ?_⟩
    have whole := (headed.append filled).append ends
    rwa [List.append_nil] at whole
  obtain ⟨noType, noShape⟩ := not_or.mp isEmpty
  obtain ⟨type, hasType⟩ := Option.ne_none_iff_exists'.mp noType
  obtain ⟨shape, hasShape⟩ := Option.ne_none_iff_exists'.mp noShape
  obtain ⟨header, announces, success⟩ :=
    announces_of_readInline hasType hasShape success
  unfold readAnnounced at success
  split at success
  · next holdsObjects =>
      obtain ⟨value, middle, decoded, sameReader, _⟩ :=
        standsFor_of_readNested success
      obtain ⟨bytes, taken, isPickle⟩ :=
        Execution.isPickle_of_nestedPickle decoded
      refine ⟨bytes, .pickle announces holdsObjects isPickle, ?_⟩
      rw [Source.Passes, sameReader]
      exact taken
  · next isRaw =>
      obtain ⟨_, middle, skipped, success⟩ := bind_eq_ok_iff.mp success
      obtain ⟨padding, isPadding, padded, _⟩ := skipAlignment_passes skipped
      obtain ⟨content, last, read, ends⟩ := allocArray_passes success
      obtain ⟨_, data, length, filled⟩ := readElements_passes read
      refine ⟨_, .announced announces (Bool.eq_false_iff.mpr isRaw) isPadding
        length, ?_⟩
      have whole := (padded.append filled).append ends
      rwa [List.append_nil] at whole

end Payload

end PickleGraph
