import PickleGraph.Machine.Instruction
import PickleGraph.Proofs.Bytes
import PickleGraph.Proofs.Number.Integer
import PickleGraph.Proofs.Reader
import PickleGraph.Proofs.Text.Escape
import PickleGraph.Proofs.Text.Utf8

/-!
# Arguments in a file without frames

An action takes bytes for a result if it reads exactly these bytes wherever they
stand in a file, gives the result and leaves the heap alone. The file may be
read through any number of readers of pickles inside, as long as there are no
frames. The arguments of opcodes are taken for the instruction they write.
-/

namespace PickleGraph

open Actions

/-- A reader with no frame, also on none of the readers below it, that holds
these bytes from here on. -/
def Reader.Faces (bytes : Bytes) : Reader → Prop
  | file rest _ ending => rest = bytes ∧ ending = none
  | cursor below _ => below.Faces bytes
  | unframer below _ frame => frame = none ∧ below.Faces bytes

namespace Reader

theorem Faces.read {data rest : Bytes} {reader : Reader}
    (faces : reader.Faces (data ++ rest)) (short : data.length < 2 ^ 63) :
    ∃ after : Reader, after.Faces rest ∧
      reader.read data.length = .ok data after := by
  have natural : ¬ (data.length : Int) < 0 := by omega
  induction reader with
  | file content offset ending =>
      obtain ⟨rfl, rfl⟩ := faces
      exact ⟨file rest (offset + data.length) none, ⟨rfl, rfl⟩,
        read_file offset short⟩
  | cursor below position inductionHypothesis =>
      obtain ⟨after, afterFaces, read⟩ := inductionHypothesis faces
      refine ⟨cursor after (position + data.length), afterFaces, ?_⟩
      rw [Reader.read, if_neg natural, read, Int.toNat_natCast]
      exact exactly_of_ok cursor after
  | unframer below position frame inductionHypothesis =>
      obtain ⟨rfl, belowFaces⟩ := faces
      obtain ⟨after, afterFaces, read⟩ := inductionHypothesis belowFaces
      refine ⟨unframer after (position + data.length) none,
        ⟨rfl, afterFaces⟩, ?_⟩
      rw [Reader.read, if_neg natural, read, Int.toNat_natCast]
      exact exactly_of_ok (unframer · · none) after

theorem wholeLine_of_ok {line : Bytes} {position : Nat}
    (ends : endsLine line = true) (rebuild : Reader → Nat → Reader)
    (below : Reader) :
    wholeLine position rebuild (.ok line below) =
      .ok line (rebuild below (position + line.length)) := by
  rw [wholeLine, if_pos ends]

theorem Faces.readLine {line rest : Bytes} {reader : Reader}
    (faces : reader.Faces (line ++ 0x0A :: rest))
    (noNewline : (0x0A : UInt8) ∉ line) :
    ∃ after : Reader, after.Faces rest ∧
      reader.readLine = .ok (line ++ [0x0A]) after := by
  have ends : endsLine (line ++ [0x0A]) = true := by
    rw [endsLine, List.getLast?_concat]
    rfl
  induction reader with
  | file content offset ending =>
      obtain ⟨rfl, rfl⟩ := faces
      refine ⟨file rest (offset + (line ++ [0x0A]).length) none,
        ⟨rfl, rfl⟩, ?_⟩
      rw [Reader.readLine, splitLine_of_notMem rest noNewline]
  | cursor below position inductionHypothesis =>
      obtain ⟨after, afterFaces, read⟩ := inductionHypothesis faces
      refine ⟨cursor after (position + (line ++ [0x0A]).length), afterFaces,
        ?_⟩
      rw [Reader.readLine, read]
      exact wholeLine_of_ok ends cursor after
  | unframer below position frame inductionHypothesis =>
      obtain ⟨rfl, belowFaces⟩ := faces
      obtain ⟨after, afterFaces, read⟩ := inductionHypothesis belowFaces
      refine ⟨unframer after (position + (line ++ [0x0A]).length) none,
        ⟨rfl, afterFaces⟩, ?_⟩
      rw [Reader.readLine, read]
      exact wholeLine_of_ok ends (unframer · · none) after

/-- A pickle inside is read through one more reader, which is taken away
again. -/
theorem Faces.beneath {bytes : Bytes} {reader : Reader}
    (faces : reader.Faces bytes) : reader.beneath.Faces bytes := by
  cases reader with
  | file content offset ending => exact faces
  | cursor below position => exact faces
  | unframer below position frame => exact faces.2

end Reader

namespace Decoding

variable {α β : Type}

/-- The action takes the bytes for the result, whatever follows them. -/
def Takes (action : Decoding α) (bytes : Bytes) (result : α) : Prop :=
  ∀ (rest : Bytes) (source : Source), source.reader.Faces (bytes ++ rest) →
    ∃ reader : Reader, reader.Faces rest ∧
      action source = .ok result { source with reader }

namespace Takes

theorem pure (result : α) :
    Takes (Pure.pure result : Decoding α) [] result :=
  fun _ source faces => ⟨source.reader, faces, rfl⟩

theorem bind {action : Decoding α} {next : α → Decoding β}
    {bytes more : Bytes} {value : α} {result : β}
    (first : Takes action bytes value)
    (second : Takes (next value) more result) :
    Takes (action >>= next) (bytes ++ more) result := by
  intro rest source faces
  rw [List.append_assoc] at faces
  obtain ⟨reader, middleFaces, read⟩ := first _ source faces
  obtain ⟨after, afterFaces, finished⟩ :=
    second rest { source with reader } middleFaces
  exact ⟨after, afterFaces, (bind_of_eq_ok read).trans finished⟩

/-- The rest of an action may take nothing. -/
theorem bind_nil {action : Decoding α} {next : α → Decoding β}
    {bytes : Bytes} {value : α} {result : β}
    (first : Takes action bytes value)
    (second : Takes (next value) [] result) :
    Takes (action >>= next) bytes result := by
  have taken := first.bind second
  rwa [List.append_nil] at taken

/-- What is read decides the result alone. -/
theorem map {action : Decoding α} {bytes : Bytes} {value : α}
    (change : α → β) (first : Takes action bytes value) :
    Takes (do return change (← action)) bytes (change value) :=
  first.bind_nil (pure (change value))

theorem read (data : Bytes) (short : data.length < 2 ^ 63) :
    Takes (Decoding.read data.length) data data := by
  intro rest source faces
  obtain ⟨reader, after, read⟩ := faces.read short
  refine ⟨reader, after, ?_⟩
  unfold Decoding.read reading
  rw [read]

theorem readLine {line : Bytes} (noNewline : (0x0A : UInt8) ∉ line) :
    Takes Decoding.readLine (line ++ [0x0A]) (line ++ [0x0A]) := by
  intro rest source faces
  rw [List.append_assoc] at faces
  obtain ⟨reader, after, read⟩ := faces.readLine noNewline
  refine ⟨reader, after, ?_⟩
  unfold Decoding.readLine reading
  rw [read]

end Takes

end Decoding

/-! ## Fields of arguments -/

namespace Instruction

open Decoding

theorem takes_natural {width number : Nat}
    (narrow : width < 2 ^ 63) (bound : number < 256 ^ width) :
    Takes (natural width) (Bytes.ofNatLE width number) number := by
  have data := Bytes.length_ofNatLE width number
  have taken := (Takes.read (Bytes.ofNatLE width number)
    (by rw [data]; exact narrow)).map Bytes.toNatLE
  rwa [data, Bytes.toNatLE_ofNatLE width number bound] at taken

theorem takes_signed {width : Nat} {number : Int}
    (narrow : width < 2 ^ 63) (fits : Bytes.FitsSigned width number) :
    Takes (signed width) (Bytes.ofIntLE width number) number := by
  have data := Bytes.length_ofIntLE width number
  have taken := (Takes.read (Bytes.ofIntLE width number)
    (by rw [data]; exact narrow)).map Bytes.toIntLE
  rwa [data, Bytes.toIntLE_ofIntLE fits] at taken

theorem takes_line {content : Bytes} (noNewline : (0x0A : UInt8) ∉ content) :
    Takes line (content ++ [0x0A]) content := by
  have taken := (Takes.readLine noNewline).map List.dropLast
  rwa [List.dropLast_concat] at taken

theorem takes_counted {width : Nat} {content : Bytes} (opcode : Opcode)
    (narrow : width < 2 ^ 63) (bound : content.length < 256 ^ width)
    (short : content.length ≤ maxSize) :
    Takes (counted width opcode)
      (Bytes.ofNatLE width content.length ++ content) content := by
  refine .bind (takes_natural narrow bound) ?_
  rw [if_neg (Nat.not_lt.mpr short)]
  exact .read content (Nat.lt_of_le_of_lt short (by decide))

theorem takes_countedSigned {content : Bytes} (name : String)
    (bound : content.length < 2 ^ 31) :
    Takes (countedSigned name)
      (Bytes.ofNatLE 4 content.length ++ content) content := by
  rw [← Bytes.ofIntLE_natCast (by omega)]
  refine .bind (takes_signed (by decide) ?_) ?_
  · constructor <;> omega
  · rw [if_neg (by omega), Int.toNat_natCast]
    exact .read content (by omega)

theorem takes_protocolVersion {version : Nat}
    (bound : version ≤ Opcode.highestProtocol) :
    Takes protocolVersion [UInt8.ofNat version] (.protocol version) := by
  have narrow : version < 256 ^ 1 := Nat.lt_of_le_of_lt bound (by decide)
  refine .bind_nil (takes_natural (by decide) narrow) ?_
  rw [if_neg (Nat.not_lt.mpr bound)]
  exact .pure _

theorem frameSize_eq {size : Nat} {source after : Source}
    (bound : size ≤ maxSize)
    (success : read 8 source = .ok (Bytes.ofNatLE 8 size) after) :
    frameSize source = .ok (.frame size) after := by
  have narrow : size < 256 ^ 8 := Nat.lt_of_le_of_lt bound (by decide)
  have number : natural 8 source = .ok size after := by
    refine (bind_of_eq_ok success).trans ?_
    rw [Bytes.toNatLE_ofNatLE 8 size narrow]
    rfl
  refine (bind_of_eq_ok number).trans ?_
  rw [if_neg (Nat.not_lt.mpr bound)]
  rfl

theorem takes_utf8Text {content : Bytes} {text : Text}
    (isText : Utf8.decodeGeneralized content = .ok text) :
    Takes (utf8Text content) [] (.str text) := by
  rw [utf8Text, isText]
  exact .pure _

/-- A line of UTF-8. -/
structure IsTextLine (content : Bytes) (text : Text) : Prop where
  noNewline : (0x0A : UInt8) ∉ content
  isText : Utf8.decode content = .ok text

theorem takes_textLine {content : Bytes} {text : Text}
    (isLine : IsTextLine content text) :
    Takes nameLine (content ++ [0x0A]) text := by
  refine .bind_nil (takes_line isLine.noNewline) ?_
  rw [isLine.isText]
  exact .pure _

theorem takes_escapedText (text : Text) :
    Takes (escapedText (Escape.escapeLong text)) [] (.str text) := by
  rw [escapedText, Escape.unescapeLong_escapeLong]
  exact .pure _

/-! ## Numerals -/

theorem takes_numeral {number : Int} {digits : Bytes} (name : String)
    (numeral : Integer.Numeral number digits) :
    Takes (Instruction.numeral name digits) [] number := by
  rw [Instruction.numeral, Integer.parse?_numeral numeral]
  exact .pure number

/-- Two digits that stand for a truth value are no numeral. -/
theorem takes_numeralOrTruth {number : Int} {digits : Bytes}
    (numeral : Integer.Numeral number digits)
    (noFalse : digits ≠ Bytes.ofString "00")
    (noTrue : digits ≠ Bytes.ofString "01") :
    Takes (numeralOrTruth digits) [] (.int number) := by
  rw [numeralOrTruth, if_neg noFalse, if_neg noTrue]
  exact .map Value.int (takes_numeral "INT" numeral)

theorem takes_longNumeral {number : Int} {digits : Bytes}
    (numeral : Integer.Numeral number digits) :
    Takes (longNumeral digits) [] number := by
  have noLetter : digits.getLast? ≠ some 0x4C := fun last =>
    Integer.notMem_numeral numeral (by decide) (.inr (by decide))
      (List.mem_of_getLast? last)
  rw [longNumeral, if_neg noLetter]
  exact takes_numeral "LONG" numeral

theorem takes_longNumeral_letter {number : Int} {digits : Bytes}
    (numeral : Integer.Numeral number digits) :
    Takes (longNumeral (digits ++ [0x4C])) [] number := by
  rw [longNumeral, if_pos List.getLast?_concat, List.dropLast_concat]
  exact takes_numeral "LONG" numeral

end Instruction

end PickleGraph
