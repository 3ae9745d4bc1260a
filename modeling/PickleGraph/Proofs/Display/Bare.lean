import PickleGraph.Display.Line
import PickleGraph.Proofs.Literal.Quoted
import PickleGraph.Proofs.Names.Code
import PickleGraph.Proofs.Registry.Governed

/-!
# Descriptions without control sequences

A control sequence starts with the escape character. Texts and byte strings are
quoted without it, and the descriptions of all other values are made of fixed
words, digits and quotations. Only the names of types and the targets of records
are shown as they are, and those come from the registry.
-/

namespace PickleGraph

/-! ## Bare texts -/

/-- The character that control sequences start with. -/
def CodePoint.escape : CodePoint := CodePoint.ofChar '\x1b'

/-- A text without control sequences. -/
def Text.IsBare (text : Text) : Prop := CodePoint.escape ∉ text

namespace Text

instance (text : Text) : Decidable text.IsBare :=
  inferInstanceAs (Decidable (CodePoint.escape ∉ text))

@[simp] theorem isBare_nil : IsBare [] := List.not_mem_nil

@[simp] theorem isBare_cons {point : CodePoint} {text : Text} :
    IsBare (point :: text) ↔ point ≠ .escape ∧ IsBare text := by
  simp [IsBare, eq_comm]

@[simp] theorem isBare_append {first second : Text} :
    IsBare (first ++ second) ↔ IsBare first ∧ IsBare second := by
  simp [IsBare]

@[simp] theorem isBare_flatMap {α : Type} {items : List α}
    {part : α → Text} :
    IsBare (items.flatMap part) ↔ ∀ item ∈ items, IsBare (part item) := by
  simp [IsBare]

@[simp] theorem isBare_characters {characters : List Char} :
    IsBare (characters.map CodePoint.ofChar) ↔ '\x1b' ∉ characters := by
  simp [IsBare, CodePoint.escape, CodePoint.ofChar_injective.eq_iff]

@[simp] theorem isBare_ofString {word : String} :
    IsBare (ofString word) ↔ '\x1b' ∉ word.toList :=
  isBare_characters

end Text

/-! ## Numbers -/

theorem escape_notMem_toDigits {base : Nat} (proper : 1 < base)
    (small : base ≤ 16) (number : Nat) : '\x1b' ∉ Nat.toDigits base number := by
  have each : ∀ digit < 16, Nat.digitChar digit ≠ '\x1b' := by decide
  induction number using Nat.strongRecOn with
  | ind number inductionHypothesis =>
      rw [Nat.toDigits_eq_if proper]
      split
      · next short => simp [(each number (by omega)).symm]
      · have smaller : number / base < number :=
          Nat.div_lt_self (by omega) proper
        have last : number % base < base := Nat.mod_lt number (by omega)
        simp [inductionHypothesis _ smaller,
          (each (number % base) (by omega)).symm]

theorem escape_notMem_decimal (number : Nat) :
    '\x1b' ∉ Nat.toDigits 10 number :=
  escape_notMem_toDigits (by decide) (by decide) number

theorem escape_notMem_hexDigits (width number : Nat) :
    '\x1b' ∉ Charset.hexDigits width number := by
  have digits : '\x1b' ∉ Nat.toDigits 16 number :=
    escape_notMem_toDigits (by decide) (by decide) number
  simp [Charset.hexDigits, digits]

namespace Text

@[simp] theorem isBare_ofNat (number : Nat) : IsBare (ofNat number) := by
  simp [ofNat, escape_notMem_decimal]

theorem escape_notMem_repr (number : Int) :
    '\x1b' ∉ number.repr.toList := by
  cases number with
  | ofNat number => simp [Int.repr, escape_notMem_decimal]
  | negSucc number => simp [Int.repr, escape_notMem_decimal]

@[simp] theorem isBare_ofInt (number : Int) : IsBare (ofInt number) :=
  isBare_ofString.mpr (escape_notMem_repr number)

end Text

namespace Decimal

theorem escape_notMem_dropTrailingZeros {digits : List Char}
    (bare : '\x1b' ∉ digits) : '\x1b' ∉ dropTrailingZeros digits := by
  intro member
  have inside := (List.dropWhile_sublist _).subset
    (List.mem_reverse.mp member)
  exact bare (List.mem_reverse.mp inside)

theorem escape_notMem_positional {digits whole : List Char}
    (bare : '\x1b' ∉ digits) (bareWhole : '\x1b' ∉ whole)
    (position : Int) : '\x1b' ∉ positional digits position whole := by
  have front (size : Nat) : '\x1b' ∉ digits.take size :=
    fun member => bare (List.mem_of_mem_take member)
  have back (size : Nat) : '\x1b' ∉ digits.drop size :=
    fun member => bare (List.mem_of_mem_drop member)
  unfold positional
  split
  · simp [bare]
  · dsimp only
    split
    · simp [bare, bareWhole]
    · simp [front, back]

theorem escape_notMem_scientific {digits : List Char}
    (bare : '\x1b' ∉ digits) (position : Int) :
    '\x1b' ∉ scientific digits position := by
  have front : '\x1b' ∉ digits.take 1 :=
    fun member => bare (List.mem_of_mem_take member)
  have back : '\x1b' ∉ digits.tail :=
    fun member => bare (List.mem_of_mem_tail member)
  have exponent : '\x1b' ∉ exponentText (position - 1) := by
    unfold exponentText
    dsimp only
    split <;> split <;> simp [escape_notMem_decimal]
  unfold scientific
  dsimp only
  split
  · simp [front, exponent]
  · simp [front, back, exponent]

theorem escape_notMem_magnitudeText (x : Binary64) {whole : List Char}
    (bare : '\x1b' ∉ whole) : '\x1b' ∉ magnitudeText x whole := by
  unfold magnitudeText
  split
  · decide
  · split
    · decide
    · have digits : '\x1b' ∉
          (if x.isZero then (['0'], 1) else shortestDigits x).1 := by
        split
        · decide
        · exact escape_notMem_dropTrailingZeros (escape_notMem_decimal _)
      generalize (if x.isZero then (['0'], 1) else shortestDigits x) = found
        at digits
      obtain ⟨digits, position⟩ := found
      dsimp only
      split
      · exact escape_notMem_positional digits bare _
      · exact escape_notMem_scientific digits _

theorem escape_notMem_signedText (x : Binary64) {whole : List Char}
    (bare : '\x1b' ∉ whole) : '\x1b' ∉ signedText x whole := by
  unfold signedText
  split <;> simp [escape_notMem_magnitudeText x bare]

@[simp] theorem escape_notMem_toString (x : Binary64) :
    '\x1b' ∉ (toString x).toList := by
  simp [toString, escape_notMem_signedText]

@[simp] theorem escape_notMem_complexToString (re im : Binary64) :
    '\x1b' ∉ (complexToString re im).toList := by
  have parts (x : Binary64) : '\x1b' ∉ signedText x [] :=
    escape_notMem_signedText x List.not_mem_nil
  unfold complexToString
  dsimp only
  split
  · simp [parts]
  · split <;> simp [parts]

end Decimal

/-! ## Quotations -/

namespace Quoted

theorem escape_notMem_shortEscape {quote : Char}
    (isMark : IsMark quote) {code : Nat} {escaped : List Char}
    (isEscaped : shortEscape? quote code = some escaped) :
    '\x1b' ∉ escaped := by
  unfold shortEscape? at isEscaped
  split at isEscaped
  · next isProtected =>
      cases isEscaped
      rcases isMark with rfl | rfl <;> rcases isProtected with rfl | rfl <;>
        decide
  · split at isEscaped
    · cases isEscaped
      decide
    · split at isEscaped
      · cases isEscaped
        decide
      · split at isEscaped
        · cases isEscaped
          decide
        · cases isEscaped

theorem escape_notMem_backslashPoint (point : CodePoint) :
    '\x1b' ∉ Charset.backslashPoint point := by
  unfold Charset.backslashPoint
  split
  · simp [escape_notMem_hexDigits]
  · split <;> simp [escape_notMem_hexDigits]

theorem escape_notMem_byteBody {quote : Char}
    (isMark : IsMark quote) (byte : UInt8) :
    '\x1b' ∉ byteBody quote byte := by
  unfold byteBody
  split
  · next escaped isEscaped => exact escape_notMem_shortEscape isMark isEscaped
  · split
    · next printable =>
        have each : ∀ code < 0x7F, 0x20 ≤ code →
            '\x1b' ≠ Char.ofNat code := by
          decide
        simp only [Bool.and_eq_true, decide_eq_true_eq,
          UInt8.le_iff_toNat_le, UInt8.lt_iff_toNat_lt] at printable
        simpa using each byte.toNat printable.2 printable.1
    · simp [escape_notMem_hexDigits]

@[simp] theorem isBare_bytes (content : Bytes) : Text.IsBare (bytes content) := by
  have isMark := isMark_quoteFor (content.contains 0x27)
    (content.contains 0x22)
  unfold bytes
  dsimp only
  generalize quoteFor _ _ = quote at isMark
  have delimiter : '\x1b' ≠ quote := by
    rcases isMark with rfl | rfl <;> decide
  simp [delimiter, escape_notMem_byteBody isMark]

theorem isBare_pointBody {keep : CodePoint → Bool}
    (escapes : keep .escape = false) {quote : Char}
    (isMark : IsMark quote) (point : CodePoint) :
    Text.IsBare (pointBody keep quote point) := by
  unfold pointBody
  split
  · next escaped isEscaped =>
      simpa using escape_notMem_shortEscape isMark isEscaped
  · split
    · next kept =>
        have different : point ≠ .escape := by
          rintro rfl
          rw [escapes] at kept
          cases kept
        simpa using different
    · simp [escape_notMem_backslashPoint]

@[simp] theorem isBare_text (content : Text) : Text.IsBare (text content) := by
  obtain ⟨quote, isMark, shown⟩ := text_eq content
  have delimiter : CodePoint.ofChar quote ≠ .escape := by
    rcases isMark with rfl | rfl <;> decide
  have unprintable : Text.isPrintable .escape = false :=
    Text.isPrintable_control (by decide)
  simp [shown, delimiter, isBare_pointBody unprintable isMark]

theorem isBare_asciiOnly {content : Text} (bare : content.IsBare) :
    Text.IsBare (asciiOnly content) := by
  simp only [asciiOnly, Text.isBare_flatMap]
  intro point member
  split
  · have different : point ≠ .escape := fun same => bare (same ▸ member)
    simpa using different
  · simp [escape_notMem_backslashPoint]

end Quoted

/-! ## Types of elements -/

namespace Notation

theorem isBare_separated {parts : List Text}
    (bare : ∀ part ∈ parts, part.IsBare) : (separated parts).IsBare := by
  induction parts with
  | nil => simp [separated]
  | cons part parts inductionHypothesis =>
      have others := inductionHypothesis fun part member =>
        bare part (List.mem_cons_of_mem _ member)
      cases parts with
      | nil => simpa [separated] using bare part List.mem_cons_self
      | cons next parts =>
          have unfolded : separated (part :: next :: parts) =
              part ++ (Text.ofString ", " ++ separated (next :: parts)) := by
            simp [separated, List.intercalate]
          rw [unfolded]
          simp [bare part List.mem_cons_self, others]

theorem isBare_list {parts : List Text}
    (bare : ∀ part ∈ parts, part.IsBare) : (list parts).IsBare := by
  simp [list, isBare_separated bare]

theorem isBare_braced {parts : List Text}
    (bare : ∀ part ∈ parts, part.IsBare) : (braced parts).IsBare := by
  simp [braced, isBare_separated bare]

theorem isBare_tuple {parts : List Text}
    (bare : ∀ part ∈ parts, part.IsBare) : (tuple parts).IsBare := by
  unfold tuple
  split
  · next part => simpa using bare part List.mem_cons_self
  · simp [isBare_separated bare]

@[simp] theorem isBare_shape (extents : List Nat) : (shape extents).IsBare := by
  apply isBare_tuple
  simp

end Notation

namespace Dtype

theorem escape_notMem_unitSuffix (unit : Option TimeUnit) :
    '\x1b' ∉ (unitSuffix unit).toList := by
  cases unit with
  | none => decide
  | some unit =>
      have each : ∀ name ∈ unitNames, '\x1b' ∉ name.toList := by decide
      have name := each unit.name unit.isKnown
      unfold unitSuffix
      dsimp only
      split <;> simp [name, Text.escape_notMem_repr]

theorem escape_notMem_letter (kind : ElementKind) :
    '\x1b' ∉ kind.letter.toList := by
  cases kind <;> decide

theorem escape_notMem_elementCode (kind : ElementKind) (size : Nat)
    (bigEndian : Bool) (unit : Option TimeUnit) :
    '\x1b' ∉ (elementCode kind size bigEndian unit).toList := by
  have order : '\x1b' ∉ (if kind.hasByteOrder size then
      if bigEndian then ">" else "<" else "|").toList := by
    split
    · split <;> decide
    · decide
  have letter := escape_notMem_letter kind
  have suffix := escape_notMem_unitSuffix unit
  unfold elementCode
  simp only [String.toList_append, List.mem_append, not_or]
  refine ⟨⟨⟨order, letter⟩, ?_⟩, suffix⟩
  cases kind <;> simp [escape_notMem_decimal]

theorem escape_notMem_elementName (kind : ElementKind) (size : Nat)
    (unit : Option TimeUnit) :
    '\x1b' ∉ (elementName kind size unit).toList := by
  have suffix := escape_notMem_unitSuffix unit
  cases kind <;> simp [elementName, suffix, escape_notMem_decimal]

mutual

theorem isBare_innerForm : ∀ type : Dtype, type.innerForm.IsBare
  | element .. => by simp [innerForm]
  | subarray base shape => by
      apply Notation.isBare_tuple
      simp [isBare_innerForm base]
  | struct fields size => by
      unfold innerForm
      split
      · exact Notation.isBare_list (isBare_fieldForms fields)
      · have names : ∀ part ∈ fields.map fun field => Quoted.text field.1,
            part.IsBare := by
          intro part member
          obtain ⟨field, _, rfl⟩ := List.mem_map.mp member
          exact Quoted.isBare_text field.1
        have offsets : ∀ part ∈ fields.map fun field =>
            Text.ofNat field.2.1, part.IsBare := by
          intro part member
          obtain ⟨field, _, rfl⟩ := List.mem_map.mp member
          exact Text.isBare_ofNat field.2.1
        apply Notation.isBare_braced
        simp [Notation.pair, Notation.isBare_list names,
          Notation.isBare_list (isBare_formats fields),
          Notation.isBare_list offsets]

theorem isBare_formats : ∀ fields : List (Text × Nat × Dtype),
    ∀ part ∈ formats fields, part.IsBare
  | [] => by simp [formats]
  | (name, offset, type) :: rest => by
      intro part member
      rcases List.mem_cons.mp member with rfl | inRest
      · exact isBare_innerForm type
      · exact isBare_formats rest part inRest

theorem isBare_fieldForms : ∀ fields : List (Text × Nat × Dtype),
    ∀ part ∈ fieldForms fields, part.IsBare
  | [] => by simp [fieldForms]
  | (name, offset, .element kind size bigEndian unit) :: rest => by
      intro part member
      rcases List.mem_cons.mp member with rfl | inRest
      · apply Notation.isBare_tuple
        simp [isBare_innerForm (.element kind size bigEndian unit)]
      · exact isBare_fieldForms rest part inRest
  | (name, offset, .subarray base shape) :: rest => by
      intro part member
      rcases List.mem_cons.mp member with rfl | inRest
      · apply Notation.isBare_tuple
        simp [isBare_innerForm base]
      · exact isBare_fieldForms rest part inRest
  | (name, offset, .struct fields size) :: rest => by
      intro part member
      rcases List.mem_cons.mp member with rfl | inRest
      · apply Notation.isBare_tuple
        simp [isBare_innerForm (.struct fields size)]
      · exact isBare_fieldForms rest part inRest

end

@[simp] theorem isBare_describe (type : Dtype) : type.describe.IsBare := by
  cases type with
  | element kind size bigEndian unit =>
      by_cases isCode : (kind.isFlexible || bigEndian) = true
      · rw [describe, if_pos isCode]
        exact Text.isBare_ofString.mpr
          (escape_notMem_elementCode kind size bigEndian unit)
      · rw [describe, if_neg isCode]
        exact Text.isBare_ofString.mpr
          (escape_notMem_elementName kind size unit)
  | subarray base shape => exact isBare_innerForm _
  | struct fields size => exact isBare_innerForm _

theorem escape_notMem_scalarName (type : Dtype) :
    '\x1b' ∉ type.scalarName.toList := by
  cases type with
  | element kind size _ _ =>
      have float : '\x1b' ∉ (if size = 16 then "longdouble"
          else "float" ++ toString (8 * size)).toList := by
        split <;> simp [escape_notMem_decimal]
      have complex : '\x1b' ∉ (if size = 32 then "clongdouble"
          else "complex" ++ toString (8 * size)).toList := by
        split <;> simp [escape_notMem_decimal]
      cases kind with
      | float => exact float
      | complex => exact complex
      | _ => simp [scalarName, escape_notMem_decimal]
  | subarray base shape => exact (by decide : '\x1b' ∉ "ndarray".toList)
  | struct fields size => exact (by decide : '\x1b' ∉ "void".toList)

end Dtype

/-! ## Values without items -/

theorem isBare_boolText (value : Bool) : (boolText value).IsBare := by
  cases value <;> simp [boolText]

theorem Dtype.isBare_describeScalar (type : Dtype) (data : Bytes) :
    (type.describeScalar data).IsBare := by
  have name := escape_notMem_scalarName type
  unfold describeScalar
  dsimp only
  cases type.plainValue? data with
  | none => simp [name]
  | some value =>
      cases value with
      | bool value => simp [isBare_boolText]
      | _ => simp [name]

/-- The names and the targets of a registry are free of control sequences. -/
def Registry.IsBare (registry : Registry) : Prop :=
  ∀ key strategy, registry.resolve key = .ok strategy →
    key.module.IsBare ∧ key.name.IsBare ∧ strategy.target.IsBare

namespace Display

variable {registry : Registry} {heap : Heap}

theorem isBare_describe_object (isBare : registry.IsBare)
    (governed : heap.IsGoverned registry) {address : Address}
    (isLeaf : inside heap (.object address) = .leaf) :
    (heap.describe (.object address)).IsBare := by
  unfold inside at isLeaf
  unfold Heap.describe Value.describe Heap.describeObject
  dsimp only at isLeaf ⊢
  cases here : heap.get address with
  | list items => rw [here] at isLeaf; cases isLeaf
  | dict ordered entries => rw [here] at isLeaf; cases isLeaf
  | set members => rw [here] at isLeaf; cases isLeaf
  | bytearray content => simp
  | view source => simp
  | record record =>
      have isBound := governed.record here
      obtain ⟨_, _, target⟩ := isBare _ _ isBound.strategy
      simp [Record.describe, isBound.target, target]
  | typeRef reference =>
      obtain ⟨module, name, _⟩ := isBare _ _ (governed.typeRef here)
      simp [TypeRef.describe, module, name]
  | array array => simp [NdArray.describe]
  | plain => simp

/-- A value without items is described without control sequences. -/
theorem isBare_describe (isBare : registry.IsBare)
    (governed : heap.IsGoverned registry) {value : Value}
    (isLeaf : inside heap value = .leaf) : (heap.describe value).IsBare := by
  cases value with
  | object address => exact isBare_describe_object isBare governed isLeaf
  | tuple items => cases isLeaf
  | frozenset members => cases isLeaf
  | bool value => exact isBare_boolText value
  | scalar type data => exact type.isBare_describeScalar data
  | _ => simp [Heap.describe, Value.describe]

theorem isBare_shorten {text : Text} (bare : text.IsBare) :
    (shorten text).IsBare := by
  have front (count : Nat) : Text.IsBare (text.take count) :=
    fun member => bare (List.mem_of_mem_take member)
  unfold shorten
  split
  · simp [front]
  · exact bare

end Display

end PickleGraph
