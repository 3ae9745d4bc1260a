import PickleGraph.Proofs.Decoding.Argument

/-!
# Contracts of arguments

What reading keeps, and how it fails, carries over to the arguments of opcodes.
An argument that is no good is a malformed literal, and an octet string is
decoded under the rules for texts, which may fail in ways of their own.
-/

namespace PickleGraph

open Actions

namespace Decoding

variable {α : Type} {holds : Source → Prop}
variable {fails : Failure → Source → Prop}

theorem abides_query {answer : Heap → Except Failure α}
    (rejects : ∀ source, holds source →
      Rejects (fails · source) (answer source.heap)) :
    Abides holds fails (query answer) := by
  intro source here
  have rejected := rejects source here
  unfold query
  cases outcome : answer source.heap with
  | ok result => exact here
  | error failure => exact rejected failure outcome

theorem abides_build {change : Heap → Except Failure (α × Heap)}
    (rejects : ∀ source : Source,
      Rejects (fails · source) (change source.heap)) :
    Abides (fun _ => True) fails (build change) := by
  intro source _
  have rejected := rejects source
  unfold build
  cases outcome : change source.heap with
  | ok made => trivial
  | error failure => exact rejected failure outcome

end Decoding

namespace Instruction

open Decoding

/-- The opcodes whose argument is decoded as a text of octets. -/
def octetTexts : List Opcode :=
  [.string, .binString, .shortBinString]

/-- What reading keeps and how it fails, for the argument of an opcode. -/
structure Argues (rules : TextRules) (opcode : Opcode)
    (holds : Source → Prop) (fails : Failure → Source → Prop) : Prop where
  read : ∀ count ≤ maxSize, Meets holds (Decoding.read count)
    (fun data source => data.length ≤ count ∧ holds source) fails
  readLine : Abides holds fails Decoding.readLine
  decode : opcode ∈ octetTexts → ∀ content source, holds source →
    Rejects (fails · source) (rules.decode content)
  malformed : ∀ cause : Cause, cause.failureClass = .malformedLiteral →
    ∀ source, holds source → fails (.ofCause cause) source
  unsupported : ∀ other source, holds source →
    fails (.ofCause (.unsupportedOpcode other)) source

theorem toIntLE_le {bytes : Bytes} {width : Nat}
    (short : bytes.length ≤ width) :
    (Bytes.toIntLE bytes).toNat ≤ 256 ^ width := by
  have bound := Bytes.toNatLE_lt bytes
  have grows : 256 ^ bytes.length ≤ 256 ^ width :=
    Nat.pow_le_pow_right (by decide) short
  unfold Bytes.toIntLE
  dsimp only
  split
  · have negative : ((Bytes.toNatLE bytes : Int) -
        ((256 ^ bytes.length : Nat) : Int)).toNat = 0 := by
      omega
    have cast : ((256 : Int) ^ bytes.length) =
        ((256 ^ bytes.length : Nat) : Int) := by
      simp
    omega
  · omega

section Fields

variable {rules : TextRules} {opcode : Opcode}
variable {holds : Source → Prop} {fails : Failure → Source → Prop}
variable (argues : Argues rules opcode holds fails)
include argues

theorem Argues.reads {count : Nat} (small : count ≤ maxSize) :
    Abides holds fails (Decoding.read count) :=
  (argues.read count small).mono (fun _ here => here)
    (fun _ _ ends => ends.2) (fun _ _ failed => failed)

theorem Argues.reject {α : Type} {cause : Cause}
    (isMalformed : cause.failureClass = .malformedLiteral) :
    Abides holds fails (Decoding.reject cause : Decoding α) :=
  .throw fun source here => argues.malformed cause isMalformed source here

theorem Argues.natural (width : Nat) (small : width ≤ maxSize) :
    Meets holds (natural width)
      (fun number source => number < 256 ^ width ∧ holds source) fails := by
  refine .bind (argues.read width small) fun data => ?_
  refine .pure fun source ends => ⟨?_, ends.2⟩
  have bound := Bytes.toNatLE_lt data
  have grows : 256 ^ data.length ≤ 256 ^ width :=
    Nat.pow_le_pow_right (by decide) ends.1
  omega

theorem Argues.number (width : Nat) (small : width ≤ maxSize) :
    Abides holds fails (Instruction.natural width) :=
  (argues.natural width small).mono (fun _ here => here)
    (fun _ _ ends => ends.2) (fun _ _ failed => failed)

theorem Argues.signed (width : Nat) (small : width ≤ maxSize) :
    Meets holds (signed width)
      (fun number source => number.toNat ≤ 256 ^ width ∧ holds source)
      fails := by
  refine .bind (argues.read width small) fun data => ?_
  exact .pure fun source ends => ⟨toIntLE_le ends.1, ends.2⟩

theorem Argues.line : Abides holds fails line :=
  .bind argues.readLine fun _ => .pure fun _ here => here

theorem Argues.counted (width : Nat) (small : width ≤ maxSize)
    (opcode : Opcode) : Abides holds fails (counted width opcode) := by
  refine .bind (argues.number width small) fun length => ?_
  split
  · exact argues.reject rfl
  · next bounded =>
      exact argues.reads (Nat.le_of_not_lt bounded)

theorem Argues.countedSigned (name : String) :
    Abides holds fails (countedSigned name) := by
  refine .bind (argues.signed 4 (by decide)) fun length => ?_
  split
  · exact .throw fun source here => argues.malformed _ rfl source here.2
  · intro source here
    have bound : length.toNat ≤ maxSize :=
      Nat.le_trans here.1 (by decide)
    exact argues.reads bound source here.2

theorem Argues.utf8Text (content : Bytes) :
    Abides holds fails (utf8Text content) := by
  unfold Instruction.utf8Text
  split
  · exact .pure fun _ here => here
  · exact argues.reject rfl

/-! ## Lines -/

theorem Argues.numeral (name : String) (digits : Bytes) :
    Abides holds fails (numeral name digits) := by
  unfold Instruction.numeral
  split
  · exact .pure fun _ here => here
  · exact argues.reject rfl

theorem Argues.numeralOrTruth (digits : Bytes) :
    Abides holds fails (numeralOrTruth digits) := by
  unfold Instruction.numeralOrTruth
  split
  · exact .pure fun _ here => here
  · split
    · exact .pure fun _ here => here
    · exact .bind (argues.numeral "INT" digits) fun _ =>
        .pure fun _ here => here

theorem Argues.longNumeral (digits : Bytes) :
    Abides holds fails (longNumeral digits) := by
  unfold Instruction.longNumeral
  split
  · exact argues.numeral _ _
  · exact argues.numeral _ _

theorem Argues.decimalNumber (digits : Bytes) :
    Abides holds fails (decimalNumber digits) := by
  unfold Instruction.decimalNumber
  split
  · exact .pure fun _ here => here
  · exact argues.reject rfl

theorem Argues.text (isText : opcode ∈ octetTexts) (content : Bytes) :
    Abides holds fails (query fun _ => rules.decode content) :=
  abides_query fun source here => argues.decode isText content source here

theorem Argues.quotedString (isText : opcode ∈ octetTexts)
    (content : Bytes) :
    Abides holds fails (quotedString rules content) := by
  unfold Instruction.quotedString
  split
  · exact argues.reject rfl
  · split
    · exact argues.reject rfl
    · exact argues.text isText _

theorem Argues.escapedText (content : Bytes) :
    Abides holds fails (escapedText content) := by
  unfold Instruction.escapedText
  split
  · exact .pure fun _ here => here
  · exact argues.reject rfl

theorem Argues.nameLine : Abides holds fails nameLine := by
  refine .bind argues.line fun content => ?_
  split
  · exact .pure fun _ here => here
  · exact argues.reject rfl

theorem Argues.countedNumber (width : Nat) :
    Abides holds fails (countedNumber width) := by
  unfold Instruction.countedNumber
  split
  · refine .bind (argues.natural 1 (by decide)) fun length => ?_
    have reads : Meets
        (fun source => length < 256 ^ 1 ∧ holds source)
        (Decoding.read length) (fun _ => holds) fails := by
      intro source here
      have bound : length ≤ maxSize :=
        Nat.le_trans (Nat.le_of_lt here.1) (by decide)
      exact argues.reads bound source here.2
    exact .bind reads fun _ => .pure fun _ here => here
  · exact .bind (argues.countedSigned _) fun _ => .pure fun _ here => here

/-! ## Opcodes -/

/-- Reading the argument of an opcode keeps what reading keeps, and fails as
reading does or because of the argument. -/
theorem Argues.ofOpcode : Abides holds fails (ofOpcode rules opcode) := by
  have returns : ∀ {α β : Type} {action : Decoding α} {result : α → β},
      Abides holds fails action →
        Abides holds fails (do return result (← action)) :=
    fun abides => .bind abides fun _ => .pure fun _ here => here
  cases opcode with
  | proto =>
      refine .bind (argues.number _ (by decide)) fun version => ?_
      split
      · exact argues.reject rfl
      · exact .pure fun _ here => here
  | frame =>
      refine .bind (argues.number _ (by decide)) fun size => ?_
      split
      · exact argues.reject rfl
      · exact .pure fun _ here => here
  | int =>
      exact .bind argues.line fun digits =>
        returns (argues.numeralOrTruth digits)
  | long =>
      exact .bind argues.line fun digits =>
        returns (argues.longNumeral digits)
  | float =>
      exact .bind argues.line fun digits =>
        returns (argues.decimalNumber digits)
  | unicode =>
      exact .bind argues.line fun content =>
        returns (argues.escapedText content)
  | get | put =>
      exact .bind argues.line fun digits =>
        returns (argues.numeral _ digits)
  | binInt =>
      refine .bind (argues.signed 4 (by decide)) fun number => ?_
      exact .pure fun _ here => here.2
  | binInt1 | binInt2 | binGet | longBinGet | binPut | longBinPut =>
      exact returns (argues.number _ (by decide))
  | long1 => exact returns (argues.countedNumber 1)
  | long4 => exact returns (argues.countedNumber 4)
  | binFloat => exact returns (argues.reads (by decide))
  | string =>
      exact .bind argues.line fun content =>
        returns (argues.quotedString (by decide) content)
  | binString =>
      exact .bind (argues.countedSigned _) fun content =>
        returns (argues.text (by decide) content)
  | shortBinString =>
      exact .bind (argues.counted _ (by decide) _) fun content =>
        returns (argues.text (by decide) content)
  | binUnicode | binUnicode8 | shortBinUnicode =>
      exact .bind (argues.counted _ (by decide) _) fun content =>
        returns (argues.utf8Text content)
  | binBytes | shortBinBytes | binBytes8 | byteArray8 =>
      exact returns (argues.counted _ (by decide) _)
  | «global» | inst =>
      exact .bind argues.nameLine fun _ =>
        returns argues.nameLine
  | persId | binPersId | ext1 | ext2 | ext4 | nextBuffer =>
      exact .throw fun source here => argues.unsupported _ source here
  | _ => exact .pure fun _ here => here

end Fields

end Instruction

end PickleGraph
