import PickleGraph.Proofs.Heap.Growth
import PickleGraph.Proofs.Machine.Effect

/-!
# Scalars and their codes

A scalar is written by one opcode with an argument. There are several opcodes
for most scalars, and each of them puts the scalar on the stack.
-/

namespace PickleGraph

inductive Scalar
  | none
  | bool (value : Bool)
  | int (number : Int)
  | float (number : Binary64)
  | str (text : Text)
  | bytes (content : Bytes)

namespace Scalar

/-- Whether a decoded value is the scalar. The mark of a number that is no NaN
is zero. -/
def Is : Scalar → Value → Prop
  | .none, value => value = .none
  | .bool flag, value => value = .bool flag
  | .int number, value => value = .int number
  | .float number, value =>
      ∃ mark, value = .float number mark ∧
        (number.isNaN = false → mark = 0)
  | .str text, value => value = .str text
  | .bytes content, value => value = .bytes content

/-- The scalar as a key; a NaN is no key. -/
def key? : Scalar → Option Value
  | .none => some .none
  | .bool flag => some (.bool flag)
  | .int number => some (.int number)
  | .float number => if number.isNaN then Option.none else some (.float number 0)
  | .str text => some (.str text)
  | .bytes content => some (.bytes content)

theorem not_is_object (scalar : Scalar) {address : Address} :
    ¬ scalar.Is (.object address) := by
  cases scalar with
  | float number =>
      rintro ⟨mark, same, _⟩
      cases same
  | _ =>
      intro same
      cases same

theorem Is.eq_of_key? {scalar : Scalar} {value key : Value}
    (same : scalar.Is value) (isKey : scalar.key? = some key) :
    value = key := by
  cases scalar with
  | float number =>
      obtain ⟨mark, rfl, plain⟩ := same
      rw [key?] at isKey
      split at isKey
      · cases isKey
      · next noNaN =>
          cases isKey
          rw [plain (Bool.eq_false_iff.mpr noNaN)]
  | _ =>
      cases isKey
      exact same

theorem checkHashable_key {scalar : Scalar} {key : Value} (heap : Heap)
    (isKey : scalar.key? = some key) :
    heap.checkHashable key = .ok () := by
  cases scalar with
  | float number =>
      rw [key?] at isKey
      split at isKey
      · cases isKey
      · cases isKey
        rfl
  | _ =>
      cases isKey
      rfl

theorem is_float (heap : Heap) (number : Binary64) :
    Scalar.Is (.float number) (heap.float number).1 := by
  unfold Heap.float
  split
  · next isNaN =>
      exact ⟨_, rfl, fun noNaN => absurd isNaN (Bool.eq_false_iff.mp noNaN)⟩
  · exact ⟨0, rfl, fun _ => rfl⟩

/-! ## Marks -/

/-- The mark of a value that is a NaN. -/
def nanMark? : Value → Option Nat
  | .float number mark => if number.isNaN then some mark else Option.none
  | _ => Option.none

/-- The marks of the NaNs among the values lie in a range and increase. -/
structure Marked (low high : Nat) (values : List Value) : Prop where
  increasing : (values.filterMap nanMark?).Pairwise (· < ·)
  low : ∀ mark ∈ values.filterMap nanMark?, low < mark
  high : ∀ mark ∈ values.filterMap nanMark?, mark ≤ high

theorem Marked.nil (low high : Nat) : Marked low high [] :=
  ⟨.nil, by simp, by simp⟩

theorem Marked.append {low middle high : Nat} {first second : List Value}
    (early : Marked low middle first) (late : Marked middle high second)
    (ordered : low ≤ middle ∧ middle ≤ high) :
    Marked low high (first ++ second) := by
  obtain ⟨lowest, highest⟩ := ordered
  constructor
  · rw [List.filterMap_append, List.pairwise_append]
    refine ⟨early.increasing, late.increasing, fun mark member other later => ?_⟩
    exact Nat.lt_of_le_of_lt (early.high mark member) (late.low other later)
  · intro mark member
    rw [List.filterMap_append, List.mem_append] at member
    rcases member with member | member
    · exact early.low mark member
    · exact Nat.lt_of_le_of_lt lowest (late.low mark member)
  · intro mark member
    rw [List.filterMap_append, List.mem_append] at member
    rcases member with member | member
    · exact Nat.le_trans (early.high mark member) highest
    · exact late.high mark member

theorem Marked.sublist {low high : Nat} {values others : List Value}
    (marked : Marked low high others) (sublist : values.Sublist others) :
    Marked low high values := by
  have marks := sublist.filterMap nanMark?
  exact ⟨marked.increasing.sublist marks,
    fun mark member => marked.low mark (marks.subset member),
    fun mark member => marked.high mark (marks.subset member)⟩

theorem marked_float (heap : Heap) (number : Binary64) :
    heap.marks ≤ (heap.float number).2.marks ∧
      Marked heap.marks (heap.float number).2.marks
        [(heap.float number).1] := by
  unfold Heap.float
  split
  · next isNaN =>
      have marks : [Value.float number (heap.marks + 1)].filterMap nanMark? =
          [heap.marks + 1] := by
        simp [nanMark?, isNaN]
      refine ⟨Nat.le_succ _, ?_, ?_, ?_⟩ <;> simp [marks]
  · next noNaN =>
      have marks : [Value.float number 0].filterMap nanMark? = [] := by
        simp [nanMark?, noNaN]
      refine ⟨Nat.le_refl _, ?_, ?_, ?_⟩ <;> simp [marks]

/-- A value without a mark can stand anywhere. -/
theorem marked_single {low high : Nat} {value : Value}
    (noMark : nanMark? value = Option.none) : Marked low high [value] := by
  constructor <;> simp [noMark]

theorem nanMark?_key {scalar : Scalar} {value : Value}
    (isKey : scalar.key? = some value) : nanMark? value = Option.none := by
  cases scalar with
  | float number =>
      rw [key?] at isKey
      split at isKey
      · cases isKey
      · next noNaN =>
          cases isKey
          simp [nanMark?, noNaN]
  | _ =>
      cases isKey
      rfl

/-! ## Codes -/

/-- The widths of unsigned numbers. -/
def numberWidth? : Opcode → Option Nat
  | .binInt1 => some 1
  | .binInt2 => some 2
  | _ => Option.none

/-- The widths of the lengths of texts. -/
def textWidth? : Opcode → Option Nat
  | .shortBinUnicode => some 1
  | .binUnicode => some 4
  | .binUnicode8 => some 8
  | _ => Option.none

/-- The widths of the lengths of byte strings. -/
def bytesWidth? : Opcode → Option Nat
  | .shortBinBytes => some 1
  | .binBytes => some 4
  | .binBytes8 => some 8
  | _ => Option.none

/-- Content after its length. -/
def counted (width : Nat) (content : Bytes) : Bytes :=
  Bytes.ofNatLE width content.length ++ content

/-- Content whose length fits a width and the sizes of a stream. -/
structure Countable (width : Nat) (content : Bytes) : Prop where
  bound : content.length < 256 ^ width
  short : content.length ≤ Instruction.maxSize

/-- All the ways to write a scalar. -/
inductive Code : Scalar → Bytes → Prop
  | none : Code .none [Opcode.none.code]
  | true : Code (.bool true) [Opcode.newTrue.code]
  | false : Code (.bool false) [Opcode.newFalse.code]
  | trueLine : Code (.bool true)
      (Opcode.int.code :: (Bytes.ofString "01" ++ [0x0A]))
  | falseLine : Code (.bool false)
      (Opcode.int.code :: (Bytes.ofString "00" ++ [0x0A]))
  | intLine {number : Int} {digits : Bytes} :
      Integer.Numeral number digits →
      digits ≠ Bytes.ofString "00" → digits ≠ Bytes.ofString "01" →
      Code (.int number) (Opcode.int.code :: (digits ++ [0x0A]))
  | longLine {number : Int} {digits : Bytes} :
      Integer.Numeral number digits →
      Code (.int number) (Opcode.long.code :: (digits ++ [0x0A]))
  | longLineLetter {number : Int} {digits : Bytes} :
      Integer.Numeral number digits →
      Code (.int number) (Opcode.long.code :: (digits ++ [0x4C] ++ [0x0A]))
  | unsigned {opcode : Opcode} {width number : Nat} :
      numberWidth? opcode = some width → number < 256 ^ width →
      Code (.int number) (opcode.code :: Bytes.ofNatLE width number)
  | binInt {number : Int} : Bytes.FitsSigned 4 number →
      Code (.int number) (Opcode.binInt.code :: Bytes.ofIntLE 4 number)
  | long1 {width : Nat} {number : Int} :
      width < 2 ^ 8 → Bytes.FitsSigned width number →
      Code (.int number)
        (Opcode.long1.code :: counted 1 (Bytes.ofIntLE width number))
  | long4 {width : Nat} {number : Int} :
      width < 2 ^ 31 → Bytes.FitsSigned width number →
      Code (.int number)
        (Opcode.long4.code :: counted 4 (Bytes.ofIntLE width number))
  | binFloat {number : Binary64} :
      Code (.float number) (Opcode.binFloat.code :: number.toBytesBE)
  | textLine {text : Text} :
      Code (.str text)
        (Opcode.unicode.code :: (Escape.escapeLong text ++ [0x0A]))
  | text {opcode : Opcode} {width : Nat} {text : Text} :
      textWidth? opcode = some width →
      Countable width (Utf8.encodeGeneralized text) →
      Code (.str text)
        (opcode.code :: counted width (Utf8.encodeGeneralized text))
  | bytes {opcode : Opcode} {width : Nat} {content : Bytes} :
      bytesWidth? opcode = some width → Countable width content →
      Code (.bytes content) (opcode.code :: counted width content)

/-! ## Execution -/

open Instruction Decoding Execution

/-- A number after its width, which is read without or with a sign. -/
theorem takes_countedNumber {sizeWidth width : Nat} {number : Int}
    (narrow : sizeWidth = 1 ∧ width < 2 ^ 8 ∨
      sizeWidth = 4 ∧ width < 2 ^ 31)
    (fits : Bytes.FitsSigned width number) :
    Takes (countedNumber sizeWidth)
      (counted sizeWidth (Bytes.ofIntLE width number)) (.int number) := by
  have length := Bytes.length_ofIntLE width number
  have value := Bytes.toIntLE_ofIntLE fits
  rcases narrow with ⟨rfl, narrow⟩ | ⟨rfl, narrow⟩
  · rw [countedNumber, if_pos rfl, counted, length]
    refine .bind (takes_natural (by decide) narrow) ?_
    have taken := (Takes.read (Bytes.ofIntLE width number)
      (by rw [length]; omega)).map fun content =>
        Value.int (Bytes.toIntLE content)
    rwa [length, value] at taken
  · have taken := (takes_countedSigned "LONG"
      (by rw [length]; exact narrow)).map fun content =>
        Value.int (Bytes.toIntLE content)
    rw [value] at taken
    rw [countedNumber, if_neg (by decide), counted]
    exact taken

theorem takes_unsigned {rules : TextRules} {opcode : Opcode}
    {width number : Nat} (isNumber : numberWidth? opcode = some width)
    (bound : number < 256 ^ width) :
    Takes (ofOpcode rules opcode) (Bytes.ofNatLE width number)
      (.push (.int number)) := by
  cases opcode <;> cases isNumber <;>
    exact .map (fun number : Nat => Instruction.push (.int number))
      (takes_natural (by decide) bound)

theorem takes_text_of_decode {rules : TextRules} {opcode : Opcode}
    {width : Nat} {content : Bytes} {text : Text}
    (isText : textWidth? opcode = some width)
    (countable : Countable width content)
    (decoded : Utf8.decodeGeneralized content = .ok text) :
    Takes (ofOpcode rules opcode) (counted width content)
      (.push (.str text)) := by
  cases opcode <;> cases isText <;>
    exact .bind_nil
      (takes_counted _ (by decide) countable.bound countable.short)
      (.map Instruction.push (takes_utf8Text decoded))

theorem takes_text {rules : TextRules} {opcode : Opcode}
    {width : Nat} {text : Text} (isText : textWidth? opcode = some width)
    (countable : Countable width (Utf8.encodeGeneralized text)) :
    Takes (ofOpcode rules opcode)
      (counted width (Utf8.encodeGeneralized text)) (.push (.str text)) :=
  takes_text_of_decode isText countable
    (Utf8.decodeGeneralized_encodeGeneralized text)

theorem takes_bytes {rules : TextRules} {opcode : Opcode}
    {width : Nat} {content : Bytes}
    (isBytes : bytesWidth? opcode = some width)
    (countable : Countable width content) :
    Takes (ofOpcode rules opcode) (counted width content)
      (.push (.bytes content)) := by
  cases opcode <;> cases isBytes <;>
    exact .map (fun content => Instruction.push (.bytes content))
      (takes_counted _ (by decide) countable.bound countable.short)

theorem takes_binFloat {rules : TextRules} (number : Binary64) :
    Takes (ofOpcode rules .binFloat) number.toBytesBE
      (.pushFloat number) := by
  have taken := (Takes.read number.toBytesBE
    (by rw [Binary64.length_toBytesBE]; decide)).map fun content =>
      Instruction.pushFloat (Binary64.ofBytesBE content)
  rwa [Binary64.length_toBytesBE, Binary64.ofBytesBE_toBytesBE] at taken

variable {options : Options} {stack : List Value}
variable {marks : List (List Value)} {memo : List (Nat × Value)} {heap : Heap}

/-- The code of a scalar puts it on the stack and makes no object, and a NaN is
marked as a new one. -/
theorem Code.executes {scalar : Scalar} {code : Bytes}
    (writes : Code scalar code) :
    ∃ value after, scalar.Is value ∧ after.objects = heap.objects ∧
      (heap.marks ≤ after.marks ∧
        Marked heap.marks after.marks [value]) ∧
      Executes options code ⟨stack, marks, memo, heap⟩
        ⟨value :: stack, marks, memo, after⟩ := by
  have pushed : ∀ {opcode : Opcode} {argument : Bytes} {value : Value},
      scalar.key? = some value → scalar.Is value →
      Takes (ofOpcode options.rules opcode) argument (.push value) →
      ∃ value after, scalar.Is value ∧ after.objects = heap.objects ∧
        (heap.marks ≤ after.marks ∧
          Marked heap.marks after.marks [value]) ∧
        Executes options (opcode.code :: argument)
          ⟨stack, marks, memo, heap⟩ ⟨value :: stack, marks, memo, after⟩ :=
    fun isKey same taken =>
      ⟨_, heap, same, rfl, ⟨Nat.le_refl _, marked_single (nanMark?_key isKey)⟩,
        .of_effect taken (effect_push _)⟩
  cases writes with
  | none => exact pushed rfl rfl (.pure _)
  | true => exact pushed rfl rfl (.pure _)
  | false => exact pushed rfl rfl (.pure _)
  | trueLine =>
      refine pushed rfl rfl (.bind_nil (takes_line (by decide)) ?_)
      exact .pure _
  | falseLine =>
      refine pushed rfl rfl (.bind_nil (takes_line (by decide)) ?_)
      exact .pure _
  | intLine numeral noFalse noTrue =>
      refine pushed rfl rfl (.bind_nil (takes_line ?_) (.map Instruction.push
        (takes_numeralOrTruth numeral noFalse noTrue)))
      exact Integer.notMem_numeral numeral (by decide) (.inl (by decide))
  | longLine numeral =>
      refine pushed rfl rfl (.bind_nil (takes_line ?_) (.map (fun number =>
        Instruction.push (.int number)) (takes_longNumeral numeral)))
      exact Integer.notMem_numeral numeral (by decide) (.inl (by decide))
  | longLineLetter numeral =>
      refine pushed rfl rfl (.bind_nil (takes_line ?_) (.map (fun number =>
        Instruction.push (.int number)) (takes_longNumeral_letter numeral)))
      rw [List.mem_append]
      rintro (member | member)
      · exact Integer.notMem_numeral numeral (by decide) (.inl (by decide))
          member
      · exact absurd member (by decide)
  | unsigned isNumber bound =>
      exact pushed rfl rfl (takes_unsigned isNumber bound)
  | binInt fits =>
      exact pushed rfl rfl (.map (fun number => Instruction.push (.int number))
        (takes_signed (by decide) fits))
  | long1 narrow fits =>
      exact pushed rfl rfl (.map Instruction.push
        (takes_countedNumber (.inl ⟨rfl, narrow⟩) fits))
  | long4 narrow fits =>
      exact pushed rfl rfl (.map Instruction.push
        (takes_countedNumber (.inr ⟨rfl, narrow⟩) fits))
  | @binFloat number =>
      refine ⟨_, _, ?_, Heap.objects_float heap number,
        marked_float heap number,
        .of_effect (takes_binFloat number) (effect_pushFloat number)⟩
      exact is_float heap number
  | textLine =>
      exact pushed rfl rfl (.bind_nil
        (takes_line (Escape.newline_notMem_escapeLong _))
        (.map Instruction.push (takes_escapedText _)))
  | text isText countable => exact pushed rfl rfl (takes_text isText countable)
  | bytes isBytes countable =>
      exact pushed rfl rfl (takes_bytes isBytes countable)

end Scalar

end PickleGraph
