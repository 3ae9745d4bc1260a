import PickleGraph.Proofs.Array.Header
import PickleGraph.Proofs.Defect.Reader
import PickleGraph.Proofs.Dtype.Layout
import PickleGraph.Proofs.Literal.Reading
import PickleGraph.Proofs.Text.Utf8

/-!
# Headers as they are written

A header is the notation of a mapping under three keys, in any order, with a
comma after its last entry or without one, before blanks and the end of a line.
The type is written as its code or as a list of names with codes. What is
written in this form is read back as the type, the shape and the order.
-/

namespace PickleGraph

open Actions Decoding

/-! ## Encodings -/

namespace Charset

variable {charset : Charset} {point : CodePoint} {text : Text}
variable {content : Bytes}

/-- What a character set without a rule of recovery encodes is encoded
character by character. -/
theorem encode_strict_cons :
    encode charset strictName (point :: text) = .ok content ↔
      ∃ octets others, encodePoint? charset point = some octets ∧
        encode charset strictName text = .ok others ∧
          content = octets ++ others := by
  unfold encode
  rw [List.mapM_cons]
  cases encoded : encodePoint? charset point with
  | none =>
      rw [recovery_strictName]
      constructor
      · intro impossible
        cases impossible
      · rintro ⟨octets, _, isSome, _⟩
        cases isSome
  | some octets =>
      dsimp only
      cases (text.mapM _ : Except CharsetFault (List Bytes)) with
      | error fault =>
          constructor
          · intro impossible
            cases impossible
          · rintro ⟨_, _, _, isOk, _⟩
            cases isOk
      | ok parts =>
          constructor
          · intro isOk
            cases isOk
            exact ⟨octets, parts.flatten, rfl, rfl, rfl⟩
          · rintro ⟨_, _, isOctets, isOk, rfl⟩
            cases isOctets
            cases isOk
            rfl

theorem ofLatin1_of_encode
    (encoded : encode .latin1 strictName text = .ok content) :
    Text.ofLatin1 content = text := by
  induction text generalizing content with
  | nil =>
      cases encoded
      rfl
  | cons point rest inductionHypothesis =>
      obtain ⟨octets, others, isPoint, isRest, rfl⟩ :=
        encode_strict_cons.mp encoded
      change (if point.val < 0x100 then some [UInt8.ofNat point.val]
        else none) = some octets at isPoint
      split at isPoint
      · next small =>
          cases isPoint
          have same : CodePoint.ofByte (UInt8.ofNat point.val) = point :=
            Fin.ext (UInt8.toNat_ofNat_of_lt' small)
          have later := inductionHypothesis isRest
          unfold Text.ofLatin1 at later ⊢
          rw [List.singleton_append, List.map_cons, same, later]
      · cases isPoint

theorem decode_of_encode
    (encoded : encode .utf8 strictName text = .ok content) :
    Utf8.decode content = .ok text := by
  have plain : (∀ point ∈ text, point.isSurrogate = false) ∧
      content = Utf8.encodeGeneralized text := by
    induction text generalizing content with
    | nil =>
        cases encoded
        exact ⟨by simp, rfl⟩
    | cons point rest inductionHypothesis =>
        obtain ⟨octets, others, isPoint, isRest, rfl⟩ :=
          encode_strict_cons.mp encoded
        obtain ⟨arePlain, rfl⟩ := inductionHypothesis isRest
        change (if point.isSurrogate then none
          else some (Utf8.encodePoint point)) = some octets at isPoint
        split at isPoint
        · cases isPoint
        · next notSurrogate =>
            cases isPoint
            exact ⟨List.forall_mem_cons.mpr
              ⟨Bool.eq_false_iff.mpr notSurrogate, arePlain⟩, rfl⟩
  rw [plain.2]
  exact Utf8.decode_encodeGeneralized plain.1

/-- Every character set has the characters of ASCII, each as one octet. -/
theorem encode_ascii (charset : Charset)
    (isAscii : ∀ point ∈ text, point.val < 0x80) :
    encode charset strictName text =
      .ok (text.map fun point => UInt8.ofNat point.val) := by
  induction text with
  | nil => rfl
  | cons point rest inductionHypothesis =>
      obtain ⟨small, others⟩ := List.forall_mem_cons.mp isAscii
      have single : encodePoint? charset point =
          some [UInt8.ofNat point.val] := by
        cases charset with
        | ascii => exact if_pos small
        | latin1 => exact if_pos (by omega)
        | utf8 =>
            have noSurrogate : point.isSurrogate = false := by
              simp only [CodePoint.isSurrogate, Bool.and_eq_false_iff,
                decide_eq_false_iff_not]
              omega
            have octets : Utf8.encodePoint point =
                [UInt8.ofNat point.val] :=
              if_pos small
            simp [encodePoint?, noSurrogate, octets]
      exact encode_strict_cons.mpr
        ⟨_, _, single, inductionHypothesis others, rfl⟩

end Charset

namespace Payload

/-- A header is decoded to the text that was encoded for its version. -/
theorem headerText_of_encode {major : Nat} {text : Text} {content : Bytes}
    (encoded : Charset.encode (headerCharset major) Charset.strictName text =
      .ok content) :
    headerText (headerCharset major) content = .ok text := by
  unfold headerCharset at encoded ⊢
  split at encoded
  · next isOld =>
      rw [if_pos isOld]
      exact congrArg Except.ok (Charset.ofLatin1_of_encode encoded)
  · next isNew =>
      rw [if_neg isNew]
      unfold headerText
      simp only [Charset.decode_of_encode encoded]

/-! ## Descriptions of types -/

/-- A field of a structure as it is written: its name and the code of its
type. -/
structure FieldCode where
  name : Text
  code : Text
  type : Dtype
  isNamed : name ≠ []
  isType : Dtype.ofText code = .ok type
  isField : Dtype.checkField type = .ok ()

/-- The description of a type in a header: its code, or the fields of a
structure. -/
inductive Description
  | code (code : Text) (type : Dtype) (isType : Dtype.ofText code = .ok type)
  | fields (fields : List FieldCode) (distinct : (fields.map (·.name)).Nodup)

/-- The type that is described; the fields of a structure follow each other. -/
def Description.type : Description → Dtype
  | code _ type _ => type
  | fields listed _ =>
      Dtype.packed (listed.map fun field => (field.name, field.type))

def Description.text : Description → Text
  | code word _ _ => Quoted.text word
  | fields listed _ =>
      Notation.list (listed.map fun field =>
        Notation.tuple [Quoted.text field.name, Quoted.text field.code])

def Description.literal : Description → Literal
  | code word _ _ => .str word
  | fields listed _ =>
      .list (listed.map fun field =>
        .tuple [.str field.name, .str field.code])

/-- All names and codes are in ASCII. -/
def Description.isAscii : Description → Bool
  | code word _ _ => Literal.isAscii word
  | fields listed _ =>
      listed.all fun field =>
        Literal.isAscii field.name && Literal.isAscii field.code

/-! ## Forms of headers -/

/-- The keys of a header. -/
inductive HeaderKey
  | descr
  | fortranOrder
  | shape
  deriving DecidableEq

def HeaderKey.name : HeaderKey → String
  | descr => "descr"
  | fortranOrder => "fortran_order"
  | shape => "shape"

/-- A header together with all that is free in the way it is written. -/
structure WrittenHeader where
  description : Description
  shape : List Nat
  isShort : ∀ extent ∈ shape, extent < 10 ^ Integer.maxDecimalDigits
  firstFastest : Bool
  keys : List HeaderKey
  areKeys : keys.Perm [.descr, .fortranOrder, .shape]
  comma : Bool
  padding : Nat

namespace WrittenHeader

variable (written : WrittenHeader)

/-- The header that is meant. -/
def header : Header :=
  ⟨written.description.type, written.shape, written.firstFastest⟩

def valueText : HeaderKey → Text
  | .descr => written.description.text
  | .fortranOrder =>
      Text.ofString (if written.firstFastest then "True" else "False")
  | .shape => Notation.shape written.shape

def valueLiteral : HeaderKey → Literal
  | .descr => written.description.literal
  | .fortranOrder => .bool written.firstFastest
  | .shape => .tuple (written.shape.map .int)

/-- The mapping, blanks and the end of the line. -/
def text : Text :=
  Literal.mappingText written.comma
      (written.keys.map fun key =>
        Notation.pair (Quoted.text key.name) (written.valueText key)) ++
    (List.replicate written.padding (CodePoint.ofChar ' ') ++
      [CodePoint.ofChar '\n'])

def literal : Literal :=
  .dict (written.keys.map fun key =>
    (.str (Text.ofString key.name), written.valueLiteral key))

/-! ## Reading -/

theorem writes_description (description : Description) :
    Literal.Writes 2 description.text description.literal := by
  cases description with
  | code word type isType =>
      exact (Literal.writes_text word).weaken (Nat.zero_le 2)
  | fields listed distinct =>
      have each : List.Forall₂ (Literal.Writes 1)
          (listed.map fun field =>
            Notation.tuple [Quoted.text field.name, Quoted.text field.code])
          (listed.map fun field =>
            .tuple [.str field.name, .str field.code]) := by
        rw [List.forall₂_map_left_iff, List.forall₂_map_right_iff,
          List.forall₂_same]
        intro field _
        exact Literal.writes_tuple (.cons (Literal.writes_text field.name)
          (.cons (Literal.writes_text field.code) .nil))
      exact Literal.writes_list each

theorem writes_value (key : HeaderKey) :
    Literal.Writes 2 (written.valueText key) (written.valueLiteral key) := by
  cases key with
  | descr => exact writes_description written.description
  | fortranOrder =>
      exact (Literal.writes_bool written.firstFastest).weaken (Nat.zero_le 2)
  | shape =>
      have each : List.Forall₂ (Literal.Writes 0)
          (written.shape.map Text.ofNat) (written.shape.map .int) := by
        rw [List.forall₂_map_left_iff, List.forall₂_map_right_iff,
          List.forall₂_same]
        intro extent member
        exact Literal.writes_ofNat (written.isShort extent member)
      exact (Literal.writes_tuple each).weaken (Nat.le_succ 1)

/-- The notation is read as the literal that is meant. -/
theorem parse?_text (names : CharacterNames) :
    Literal.parse? names written.text = some written.literal := by
  have entries : List.Forall₂ (Literal.WritesEntry 2)
      (written.keys.map fun key =>
        (Quoted.text key.name, written.valueText key))
      (written.keys.map fun key =>
        (.str (Text.ofString key.name), written.valueLiteral key)) := by
    rw [List.forall₂_map_left_iff, List.forall₂_map_right_iff,
      List.forall₂_same]
    intro key _
    exact ⟨(Literal.writes_text key.name).weaken (Nat.zero_le 2),
      written.writes_value key⟩
  have nonempty : written.keys ≠ [] := by
    intro isNil
    have count := written.areKeys.length_eq
    rw [isNil] at count
    cases count
  have mapping := Literal.writes_mappingText written.comma
    (by simpa using nonempty) entries
  rw [List.map_map, Literal.mappingText_eq] at mapping
  have isBrace : ('\x7b', Literal.Token.opening .curly) ∈ Literal.marks := by
    decide
  have line := Literal.parse?_of_writes (Literal.isMark_of_mem isBrace).isStart
    mapping (by decide) names written.padding
  unfold text
  rw [Literal.mappingText_eq]
  exact line

/-! ## Headers in ASCII -/

theorem isAscii_description {description : Description}
    (isAscii : description.isAscii = true) :
    Literal.isAscii description.text = true := by
  cases description with
  | code word type isType => exact Literal.isAscii_text isAscii
  | fields listed distinct =>
      refine Literal.isAscii_list (List.forall_mem_map.mpr ?_)
      intro field member
      have each := List.all_eq_true.mp isAscii field member
      obtain ⟨isName, isCode⟩ := Bool.and_eq_true_iff.mp each
      apply Literal.isAscii_tuple
      simp [Literal.isAscii_text isName, Literal.isAscii_text isCode]

/-- A header of names and codes in ASCII is in ASCII. -/
theorem isAscii_header
    (isAscii : written.description.isAscii = true) :
    Literal.isAscii written.text = true := by
  have value (key : HeaderKey) :
      Literal.isAscii (written.valueText key) = true := by
    cases key with
    | descr => exact isAscii_description isAscii
    | fortranOrder =>
        show Literal.isAscii (Text.ofString
          (if written.firstFastest then "True" else "False")) = true
        cases written.firstFastest <;> decide
    | shape =>
        exact Literal.isAscii_tuple
          (List.forall_mem_map.mpr fun extent _ =>
            Literal.isAscii_ofNat extent)
  have name (key : HeaderKey) :
      Literal.isAscii (Quoted.text key.name) = true := by
    apply Literal.isAscii_text
    cases key <;> decide
  have entries : Literal.isAscii (Notation.separated
      (written.keys.map fun key =>
        Notation.pair (Quoted.text key.name) (written.valueText key))) =
        true := by
    refine Literal.isAscii_separated (List.forall_mem_map.mpr ?_)
    intro key _
    simp [Notation.pair, name key, value key]
  have blanks : Literal.isAscii
      (List.replicate written.padding (CodePoint.ofChar ' ')) = true := by
    apply List.all_eq_true.mpr
    intro point member
    rw [List.eq_of_mem_replicate member]
    decide
  have newline : Literal.isAscii [CodePoint.ofChar '\n'] = true := by decide
  unfold text Literal.mappingText
  cases written.comma <;> simp [entries, blanks, newline]

/-- The octets of a header in ASCII. -/
def octets : Bytes :=
  written.text.map fun point => UInt8.ofNat point.val

/-- Such a header can be written in every version. -/
theorem encode_text (isAscii : written.description.isAscii = true)
    (charset : Charset) :
    Charset.encode charset Charset.strictName written.text =
      .ok written.octets := by
  apply Charset.encode_ascii
  intro point member
  have each := List.all_eq_true.mp (written.isAscii_header isAscii) point member
  exact of_decide_eq_true each

/-! ## Evaluation -/

def fieldValue (field : FieldCode) : Value :=
  .tuple [.str field.name, .str field.code]

/-- The value of a description, which is a new list for a structure. -/
def describe : Description → Heap → Value × Heap
  | .code word _ _, heap => (.str word, heap)
  | .fields listed _, heap =>
      heap.alloc (.list (listed.map fieldValue).toArray)

theorem evaluate_description (description : Description) (heap : Heap) :
    description.literal.evaluate heap = .ok (describe description heap) := by
  cases description with
  | code word type isType => rfl
  | fields listed distinct =>
      have items : Literal.evaluate.evaluateAll
          (listed.map fun field => .tuple [.str field.name, .str field.code])
          heap = .ok (listed.map fieldValue, heap) := by
        clear distinct
        induction listed with
        | nil => rfl
        | cons field rest inductionHypothesis =>
            rw [List.map_cons, Literal.evaluate.evaluateAll]
            exact except_bind_eq_ok_iff.mpr ⟨(fieldValue field, heap), rfl,
              except_bind_eq_ok_iff.mpr ⟨_, inductionHypothesis, rfl⟩⟩
      rw [Description.literal, Literal.evaluate]
      exact except_bind_eq_ok_iff.mpr ⟨_, items, rfl⟩

/-- The value under a key of a header that is read in a heap. -/
def value (heap : Heap) : HeaderKey → Value
  | .descr => (describe written.description heap).1
  | .fortranOrder => .bool written.firstFastest
  | .shape => .tuple (written.shape.map extentValue)

theorem evaluate_value {key : HeaderKey} (isPlain : key ≠ .descr)
    (start heap : Heap) :
    (written.valueLiteral key).evaluate heap =
      .ok (written.value start key, heap) := by
  cases key with
  | descr => exact absurd rfl isPlain
  | fortranOrder => rfl
  | shape =>
      unfold valueLiteral
      rw [Literal.evaluate]
      exact except_bind_eq_ok_iff.mpr
        ⟨_, evaluateAll_extents written.shape heap, rfl⟩

/-- Only the description makes an object, so that it is made in the heap that
was there at the start, in whatever order the keys come. -/
theorem evaluateEntries_keys (start heap : Heap) {keys : List HeaderKey}
    (distinct : keys.Nodup) (isStart : .descr ∈ keys → heap = start) :
    Literal.evaluate.evaluateEntries
        (keys.map fun key =>
          (.str (Text.ofString key.name), written.valueLiteral key)) heap =
      .ok (keys.map fun key =>
          (.str (Text.ofString key.name), written.value start key),
        if .descr ∈ keys then (describe written.description start).2
        else heap) := by
  induction keys generalizing heap with
  | nil => rfl
  | cons key rest inductionHypothesis =>
      obtain ⟨isNew, others⟩ := List.nodup_cons.mp distinct
      rw [List.map_cons, Literal.evaluate.evaluateEntries]
      refine except_bind_eq_ok_iff.mpr ⟨(_, heap), rfl, ?_⟩
      by_cases isPlain : key = .descr
      · subst isPlain
        obtain rfl := isStart List.mem_cons_self
        have later := inductionHypothesis
          (describe written.description heap).2 others
          fun member => absurd member isNew
        rw [if_neg isNew] at later
        refine except_bind_eq_ok_iff.mpr
          ⟨_, evaluate_description written.description heap, ?_⟩
        refine except_bind_eq_ok_iff.mpr ⟨_, later, ?_⟩
        rw [if_pos List.mem_cons_self]
        rfl
      · have later := inductionHypothesis heap others
          fun member => isStart (List.mem_cons_of_mem _ member)
        have same : HeaderKey.descr ∈ key :: rest ↔ .descr ∈ rest := by
          simp [Ne.symm isPlain]
        refine except_bind_eq_ok_iff.mpr
          ⟨_, written.evaluate_value isPlain start heap, ?_⟩
        refine except_bind_eq_ok_iff.mpr ⟨_, later, ?_⟩
        simp only [same]
        rfl

/-! ## Entries -/

def entries (heap : Heap) : List (Value × Value) :=
  Entries.merge [] (Entries.named
    (written.keys.map fun key => (key.name, written.value heap key)))

theorem evaluate_literal (heap : Heap) :
    written.literal.evaluate heap =
      .ok ((describe written.description heap).2.alloc
        (.dict false (written.entries heap))) := by
  have distinct : written.keys.Nodup :=
    written.areKeys.nodup_iff.mpr (by decide)
  have hasDescription : HeaderKey.descr ∈ written.keys :=
    written.areKeys.mem_iff.mpr (by decide)
  have evaluated := written.evaluateEntries_keys heap heap distinct
    fun _ => rfl
  rw [if_pos hasDescription] at evaluated
  have hashable : ∀ (keys : List HeaderKey) (heap : Heap),
      ((keys.map fun key =>
        (Value.str (Text.ofString key.name), written.value heap key)).map
          (·.1)).forM (describe written.description heap).2.checkHashable =
        .ok () := by
    intro keys heap
    induction keys with
    | nil => rfl
    | cons key rest inductionHypothesis => exact inductionHypothesis
  rw [literal, Literal.evaluate]
  refine except_bind_eq_ok_iff.mpr ⟨_, evaluated, ?_⟩
  refine except_bind_eq_ok_iff.mpr ⟨(), hashable written.keys heap, ?_⟩
  rw [entries, Entries.named, List.map_map]
  rfl

theorem name_injective : Function.Injective HeaderKey.name := by
  intro first second
  cases first <;> cases second <;> decide

/-- Every key is found, in whatever order the keys come. -/
theorem findText?_entries (heap : Heap) (key : HeaderKey) :
    Entries.findText? key.name (written.entries heap) =
      some (written.value heap key) := by
  have isKey : key ∈ written.keys.reverse := by
    rw [List.mem_reverse, written.areKeys.mem_iff]
    cases key <;> decide
  have found : ∀ keys : List HeaderKey, key ∈ keys →
      (keys.map fun key => (key.name, written.value heap key)).lookup
        key.name = some (written.value heap key) := by
    intro keys member
    induction keys with
    | nil => cases member
    | cons first rest inductionHypothesis =>
        rw [List.map_cons, List.lookup_cons]
        by_cases same : key = first
        · subst same
          simp
        · have apart : (key.name == first.name) = false :=
            beq_false_of_ne fun sameName => same (name_injective sameName)
          rw [apart]
          exact inductionHypothesis
            ((List.mem_cons.mp member).resolve_left same)
  unfold entries
  rw [Entries.findText?_merge_named, ← List.map_reverse,
    found _ isKey]
  rfl

/-! ## Types -/

/-- A name and a code make a field. -/
theorem fieldSpec_fieldValue {inner : Value → Except Refusal Dtype}
    (ofCode : ∀ code, inner (.str code) = Dtype.ofText code) (index : Nat)
    (field : FieldCode) :
    Heap.fieldSpec inner index (fieldValue field) =
      .ok (Dtype.openSpec (field.name, field.type)) := by
  have names : Dtype.fieldNames index (.str field.name) =
      .ok (field.name, none) := by
    obtain ⟨first, others, isName⟩ :=
      List.exists_cons_of_ne_nil field.isNamed
    rw [isName]
    rfl
  have isType : inner (.str field.code) = .ok field.type :=
    (ofCode field.code).trans field.isType
  unfold Heap.fieldSpec fieldValue
  refine except_bind_eq_ok_iff.mpr ⟨_, rfl, ?_⟩
  refine except_bind_eq_ok_iff.mpr ⟨_, names, ?_⟩
  exact except_bind_eq_ok_iff.mpr ⟨_, isType, rfl⟩

theorem mapM_fieldSpec {inner : Value → Except Refusal Dtype}
    (ofCode : ∀ code, inner (.str code) = Dtype.ofText code)
    (indices : List Nat) (listed : List FieldCode)
    (enough : listed.length ≤ indices.length) :
    (indices.zip (listed.map fieldValue)).mapM
        (fun entry => Heap.fieldSpec inner entry.1 entry.2) =
      .ok ((listed.map fun field => (field.name, field.type)).map
        Dtype.openSpec) := by
  induction listed generalizing indices with
  | nil =>
      rw [List.map_nil, List.zip_nil_right]
      rfl
  | cons field rest inductionHypothesis =>
      cases indices with
      | nil => cases enough
      | cons index indices =>
          have others := inductionHypothesis indices
            (Nat.le_of_succ_le_succ enough)
          rw [List.map_cons, List.zip_cons_cons, List.mapM_cons]
          refine except_bind_eq_ok_iff.mpr
            ⟨_, fieldSpec_fieldValue ofCode index field, ?_⟩
          exact except_bind_eq_ok_iff.mpr ⟨_, others, rfl⟩

/-- A list of names with codes describes the structure whose fields follow each
other. -/
theorem toDtype_fields {heap : Heap} {address : Address}
    {listed : List FieldCode} (distinct : (listed.map (·.name)).Nodup)
    (isList : heap.get address = .list (listed.map fieldValue).toArray) :
    heap.toDtype (.object address) =
      .ok (Dtype.packed
        (listed.map fun field => (field.name, field.type))) := by
  have noRecord : heap.record? (.object address) = none := by
    simp only [Heap.record?, isList]
  have areFields : ∀ field ∈ listed.map fun field => (field.name, field.type),
      Dtype.checkField field.2 = .ok () :=
    List.forall_mem_map.mpr fun field _ => field.isField
  have names : ((listed.map fun field => (field.name, field.type)).map
      (·.1)).Nodup := by
    rw [List.map_map]
    exact distinct
  have specs := @mapM_fieldSpec (heap.dtypeWithin 999 false)
    (fun code => rfl) (List.range listed.length) listed
    (by rw [List.length_range])
  have described : heap.dtypeOf (.object address) =
      .ok (Dtype.packed
        (listed.map fun field => (field.name, field.type))) := by
    show heap.dtypeWithin (999 + 1) false (.object address) = _
    rw [Heap.dtypeWithin]
    simp only [isList, List.size_toArray, List.length_map]
    refine except_bind_eq_ok_iff.mpr ⟨_, specs, ?_⟩
    exact Dtype.ofFields_openSpec areFields names
  unfold Heap.toDtype Heap.convertDtype
  rw [noRecord]
  show liftM (heap.dtypeOf (.object address)) =
    (.ok _ : Except Failure Dtype)
  rw [described]
  rfl

/-! ## Headers read back -/

/-- The fields of a list that are tuples already stay as they are. -/
theorem draws_withTupleFields {heap : Heap} {address : Address}
    {listed : List FieldCode}
    (isList : heap.get address = .list (listed.map fieldValue).toArray) :
    Draws (withTupleFields (.object address)) [] heap
      (heap.alloc (.list (listed.map fieldValue).toArray)).1
      (heap.alloc (.list (listed.map fieldValue).toArray)).2 := by
  have items : Draws ((listed.map fieldValue).mapM fun item => do
        return Value.tuple (← make (·.iterate item))) [] heap
      (listed.map fieldValue) heap := by
    clear isList
    induction listed with
    | nil => exact .pure []
    | cons field rest inductionHypothesis =>
        have first : Draws (do
            return Value.tuple (← make (·.iterate (fieldValue field)))) []
            heap (fieldValue field) heap :=
          .nil_bind (.make rfl) (.pure _)
        rw [List.map_cons, List.mapM_cons]
        exact .nil_bind first (.nil_bind inductionHypothesis (.pure _))
  unfold withTupleFields
  refine .heap_bind ?_
  simp only [isList]
  rw [Array.mapM_eq_mapM_toList, map_eq_pure_bind, bind_assoc]
  refine .nil_bind items ?_
  rw [pure_bind]
  exact .alloc _

/-- What a description makes gives its type, wherever a mapping was made
afterwards. -/
theorem exists_described (description : Description) (heap : Heap)
    (mapping : Object) :
    ∃ described after,
      Draws (withTupleFields (describe description heap).1) []
          ((describe description heap).2.alloc mapping).2 described after ∧
        after.payloadDtype described = .ok description.type := by
  cases description with
  | code word type isType =>
      exact ⟨_, _, .heap_bind (.pure _),
        payloadDtype_eq_ok (Heap.toDtype_str isType)⟩
  | fields listed distinct =>
      have isList : ((heap.alloc (.list (listed.map
          fieldValue).toArray)).2.alloc mapping).2.get heap.objects.size =
            .list (listed.map fieldValue).toArray := by
        rw [Heap.get_alloc, Heap.size_alloc,
          if_neg (Nat.ne_of_lt (Nat.lt_succ_self _)), Heap.get_alloc_self]
      exact ⟨_, _, draws_withTupleFields isList,
        payloadDtype_eq_ok (toDtype_fields distinct
          (Heap.get_alloc_self _ _))⟩

/-- The notation denotes the header that is meant. -/
theorem denotes (names : CharacterNames) (heap : Heap) :
    ∃ after, Denotes names written.text heap written.header after := by
  obtain ⟨described, after, tupled, isType⟩ :=
    exists_described written.description heap
      (.dict false (written.entries heap))
  have here := Heap.get_alloc_self (describe written.description heap).2
    (.dict false (written.entries heap))
  refine ⟨after, _, _, _, written.entries heap, written.value heap .descr,
    written.value heap .shape, described, written.parse?_text names,
    written.evaluate_literal heap, ?_, written.findText?_entries heap .descr,
    written.findText?_entries heap .fortranOrder,
    written.findText?_entries heap .shape,
    shapeOf?_extents written.shape _, tupled, isType⟩
  simp only [Heap.entries?, Heap.alloc] at here ⊢
  rw [here]

/-- Whatever form a header is written in, reading it gives the header and leaves
the reader behind it. All headers in ASCII can be written, and others where the
charset of the version has their characters. -/
theorem draws_readHeader_text {major minor : UInt8} {width : Nat}
    (isVersion : lengthWidth? major.toNat = some width)
    (names : CharacterNames) (heap : Heap) :
    (written.description.isAscii = true →
      Charset.encode (headerCharset major.toNat) Charset.strictName
        written.text = .ok written.octets) ∧
    ∀ content, Charset.encode (headerCharset major.toNat)
        Charset.strictName written.text = .ok content →
      content.length < 256 ^ width →
        ∃ after, Draws (readHeader names)
          (magic ++ ([major, minor] ++
            (Bytes.ofNatLE width content.length ++ content)))
          heap written.header after := by
  constructor
  · intro isAscii
    exact written.encode_text isAscii (headerCharset major.toNat)
  · intro content encoded fits
    obtain ⟨after, denotes⟩ := written.denotes names heap
    exact ⟨after, draws_readHeader ⟨major, minor, width, content,
      written.text, isVersion, fits, headerText_of_encode encoded, denotes,
      rfl⟩⟩

/-- A structure of two fields, whose names are quoted in different ways, before
an array of one dimension. -/
def sample : WrittenHeader where
  description :=
    .fields
      [⟨"it's", "<i4", .element .signed 4 false none, by decide, rfl, rfl⟩,
        ⟨"a\\b", ">f8", .element .float 8 true none, by decide, rfl, rfl⟩]
      (by decide)
  shape := [3]
  isShort := by decide +kernel
  firstFastest := true
  keys := [.shape, .descr, .fortranOrder]
  areKeys := by decide
  comma := true
  padding := 2

theorem draws_readHeader_sample :
    lengthWidth? (3 : UInt8).toNat = some 4 ∧
      sample.octets.length < 256 ^ 4 ∧
      ∃ after, Draws (readHeader .basicLatin)
        (magic ++ ([3, 0] ++
          (Bytes.ofNatLE 4 sample.octets.length ++ sample.octets)))
        Heap.empty sample.header after := by
  have isVersion : lengthWidth? (3 : UInt8).toNat = some 4 := rfl
  have fits : sample.octets.length < 256 ^ 4 := by
    rw [octets, List.length_map]
    decide +kernel
  obtain ⟨encodes, reads⟩ :=
    @draws_readHeader_text sample 3 0 4 isVersion .basicLatin Heap.empty
  exact ⟨isVersion, fits, reads _ (encodes (by decide)) fits⟩

end WrittenHeader

end Payload

end PickleGraph
