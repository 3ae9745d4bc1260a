import PickleGraph.Proofs.Decoding.Failure

/-!
# Defects lie within the input

A reader of a byte string fails with a defect of the stream and with nothing
else, and the place of the defect is a place of the byte string or its end.
Under strict rules for a known character set, an argument that cannot be decoded
is a defect of the stream.
-/

namespace PickleGraph

open Actions

/-- A defect whose place, if it is known, is within an input of the length. -/
def Failure.IsWithin (length : Nat) : Failure → Prop
  | .defect _ place => ∀ offset ∈ place, offset ≤ length
  | .refused _ | .source _ => False

theorem Failure.isWithin_ofCause (length : Nat) (cause : Cause) :
    (Failure.ofCause cause).IsWithin length :=
  nofun

theorem Failure.isWithin_of_le {length offset : Nat} {cause : Cause}
    (within : offset ≤ length) :
    (Failure.defect cause (some offset)).IsWithin length := by
  intro place isPlace
  cases isPlace
  exact within

namespace Reader

/-- A reader in the middle of a byte string of the length. What a frame holds has
been taken from the byte string. -/
inductive IsOn (length : Nat) : Reader → Prop
  | bare {rest : Bytes} {offset position : Nat} :
      position + rest.length = length →
      IsOn length (unframer (file rest offset none) position none)
  | framed {rest : Bytes} {offset position : Nat} {frame : Frame} :
      position + rest.length = length →
      frame.tell + frame.rest.length ≤ position →
      IsOn length (unframer (file rest offset none) position (some frame))

variable {length : Nat} {reader : Reader}

theorem isOn_ofBytes (content : Bytes) :
    IsOn content.length (unframer (ofBytes content) 0 none) :=
  .bare (Nat.zero_add _)

theorem IsOn.tell_le (isOn : reader.IsOn length) :
    ∃ offset, reader.tell? = some offset ∧ offset ≤ length := by
  cases isOn with
  | bare whole =>
      refine ⟨_, rfl, ?_⟩
      omega
  | framed whole held =>
      refine ⟨_, rfl, ?_⟩
      omega

/-! ## Reading bytes -/

theorem countLimit_not_le {count : Nat}
    (small : count ≤ Instruction.maxSize) :
    ¬ countLimit ≤ (count : Int) :=
  fun large => absurd small (Nat.not_le_of_lt (maxSize_lt_of_countLimit large))

/-- A file without a fault gives as many bytes as it has. -/
theorem readFile_eq {count : Nat} (small : count ≤ Instruction.maxSize)
    (rest : Bytes) (offset : Nat) :
    readFile count rest offset none =
      .ok (rest.take count)
        (file (rest.drop count) (offset + (rest.take count).length) none) := by
  have natural : ¬ (count : Int) < 0 := by omega
  unfold readFile
  simp only [if_neg (countLimit_not_le small), if_neg natural,
    Int.toNat_natCast]

/-- A cursor on a file either gives all of the bytes or names the end of the
file. -/
theorem exactly_readFile {count position : Nat}
    (small : count ≤ Instruction.maxSize) {rest : Bytes}
    (whole : position + rest.length = length) (offset : Nat)
    (rebuild : Reader → Nat → Reader) :
    EndsIn
      (fun data after => data.length = count ∧ ∃ further,
        after = rebuild (file (rest.drop count) further none)
            (position + count) ∧
          position + count + (rest.drop count).length = length)
      (fun failure _ => failure.IsWithin length)
      (exactly count position rebuild (readFile count rest offset none)) := by
  rw [readFile_eq small]
  unfold exactly
  dsimp only
  by_cases short : (rest.take count).length < count
  · rw [if_pos short]
    refine .error (Failure.isWithin_of_le ?_)
    have taken : (rest.take count).length ≤ rest.length :=
      List.length_take_le' count rest
    omega
  · rw [if_neg short]
    have taken : (rest.take count).length = count := by
      have atMost := List.length_take_le count rest
      omega
    have enough : count ≤ rest.length := by
      rw [List.length_take] at taken
      omega
    refine ⟨taken, _, rfl, ?_⟩
    rw [List.length_drop]
    omega

theorem bare_read {count position : Nat}
    (small : count ≤ Instruction.maxSize) {rest : Bytes}
    (whole : position + rest.length = length) (offset : Nat) :
    EndsIn (fun data after => data.length ≤ count ∧ after.IsOn length)
      (fun failure _ => failure.IsWithin length)
      (exactly count position (unframer · · none)
        (readFile count rest offset none)) := by
  have ends := exactly_readFile small whole offset (unframer · · none)
  cases outcome : exactly count position (unframer · · none)
      (readFile count rest offset none) with
  | ok data after =>
      rw [outcome] at ends
      obtain ⟨size, further, rfl, left⟩ := ends
      exact ⟨Nat.le_of_eq size, .bare left⟩
  | error failure after =>
      rw [outcome] at ends
      exact ends

theorem IsOn.read (isOn : reader.IsOn length) {count : Nat}
    (small : count ≤ Instruction.maxSize) :
    EndsIn (fun data after => data.length ≤ count ∧ after.IsOn length)
      (fun failure _ => failure.IsWithin length) (reader.read count) := by
  have natural : ¬ (count : Int) < 0 := by omega
  cases isOn with
  | bare whole =>
      rw [Reader.read, if_neg natural]
      exact bare_read small whole _
  | @framed rest offset position frame whole held =>
      have inRange :
          ¬ ((count : Int) < -countLimit ∨ countLimit ≤ count) := by
        have notLarge := countLimit_not_le small
        unfold countLimit at notLarge ⊢
        omega
      have taken : (frame.rest.take count).length ≤ frame.rest.length :=
        List.length_take_le' count frame.rest
      rw [Reader.read]
      simp only [if_neg inRange, if_neg natural, Int.toNat_natCast]
      by_cases spent :
          ((frame.rest.take count).isEmpty && (count : Int) != 0) = true
      · rw [if_pos spent]
        exact bare_read small whole _
      · rw [if_neg spent]
        unfold Frame.tell at held
        by_cases cut : ((frame.rest.take count).length : Int) < count
        · rw [if_pos cut]
          refine .error (Failure.isWithin_of_le ?_)
          unfold Frame.tell Frame.skip
          dsimp only
          omega
        · rw [if_neg cut]
          refine ⟨List.length_take_le count frame.rest, .framed whole ?_⟩
          unfold Frame.tell Frame.skip
          dsimp only
          rw [List.length_drop]
          omega

/-! ## Reading lines -/

theorem wholeLine_splitLine {position : Nat} {rest : Bytes}
    (whole : position + rest.length = length) (offset : Nat) :
    EndsIn (fun _ after => after.IsOn length)
      (fun failure _ => failure.IsWithin length)
      (wholeLine position (unframer · · none)
        (readLine (file rest offset none))) := by
  have parts := splitLine_length rest
  unfold readLine
  dsimp only
  unfold wholeLine
  dsimp only
  by_cases complete : endsLine (splitLine rest).1 = true
  · rw [if_pos complete]
    refine .bare ?_
    omega
  · rw [if_neg complete]
    refine .error (Failure.isWithin_of_le ?_)
    omega

theorem IsOn.readLine (isOn : reader.IsOn length) :
    EndsIn (fun _ after => after.IsOn length)
      (fun failure _ => failure.IsWithin length) reader.readLine := by
  cases isOn with
  | bare whole =>
      rw [Reader.readLine]
      exact wholeLine_splitLine whole _
  | @framed rest offset position frame whole held =>
      have parts := splitLine_length frame.rest
      rw [Reader.readLine]
      dsimp only
      by_cases empty : (splitLine frame.rest).1.isEmpty = true
      · rw [if_pos empty]
        exact wholeLine_splitLine whole _
      · rw [if_neg empty]
        unfold Frame.tell at held
        by_cases complete : endsLine (splitLine frame.rest).1 = true
        · rw [if_pos complete]
          refine .framed whole ?_
          unfold Frame.tell Frame.skip
          dsimp only
          rw [List.length_drop]
          omega
        · rw [if_neg complete]
          refine .error (Failure.isWithin_of_le ?_)
          unfold Frame.tell Frame.skip
          dsimp only
          omega

/-! ## Opening frames -/

theorem IsOn.openFrame (isOn : reader.IsOn length) {size : Nat}
    (small : size ≤ Instruction.maxSize) :
    EndsIn (fun _ after => after.IsOn length)
      (fun failure _ => failure.IsWithin length)
      (reader.openFrame size) := by
  have natural : ¬ (size : Int) < 0 := by omega
  have opens : ∀ {rest : Bytes} {offset position : Nat}
      (frame : Option Frame), position + rest.length = length →
      frame.filter (!·.rest.isEmpty) = none →
      EndsIn (fun _ after => after.IsOn length)
        (fun failure _ => failure.IsWithin length)
        ((unframer (file rest offset none) position frame).openFrame
          size) := by
    intro rest offset position frame whole spent
    rw [Reader.openFrame, spent]
    dsimp only
    rw [Reader.read, if_neg natural, Int.toNat_natCast]
    have ends := exactly_readFile small whole offset cursor
    have asked : Reader.read size (file rest offset none) =
        readFile size rest offset none := rfl
    rw [asked]
    cases outcome : exactly size position cursor
        (readFile size rest offset none) with
    | ok data after =>
        rw [outcome] at ends
        obtain ⟨count, further, rfl, left⟩ := ends
        refine .framed left ?_
        show position + 0 + data.length ≤ position + size
        omega
    | error failure after =>
        rw [outcome] at ends
        cases after <;> exact ends
  cases isOn with
  | bare whole => exact opens none whole rfl
  | @framed rest offset position frame whole held =>
      by_cases empty : frame.rest.isEmpty = true
      · exact opens (some frame) whole (by simp [Option.filter, empty])
      · have unread : (some frame).filter (!·.rest.isEmpty) = some frame := by
          simp [Option.filter, empty]
        rw [Reader.openFrame, unread]
        dsimp only
        refine .error (Failure.isWithin_of_le ?_)
        unfold Frame.tell at held
        unfold Frame.tell Frame.skip
        dsimp only
        omega

end Reader

/-! ## Character sets -/

namespace Charset

/-- A byte string that cannot be decoded. -/
def IsUndecodable (fault : CharsetFault) : Prop :=
  ∃ charset bytes position reason,
    fault = .undecodable charset bytes position reason

def strictName : Text := Text.ofString "strict"

theorem recovery_strictName :
    Recovery.ofName? strictName = some .strict := by
  decide

theorem isName_of_known {name : Text} {charset : Charset}
    (known : ofName? name = some charset) : isName name = true := by
  cases checked : isName name with
  | true => rfl
  | false =>
      rw [ofName?, checked] at known
      cases known

theorem decodeNamed_of_known {name : Text} {charset : Charset}
    (known : ofName? name = some charset) (recoveryName : Text)
    (bytes : Bytes) :
    decodeNamed name recoveryName bytes =
      decodeFrom charset recoveryName 0 bytes := by
  rw [decodeNamed, isName_of_known known, known]
  cases bytes with
  | nil =>
      rw [decodeFrom]
      rfl
  | cons lead rest => rfl

/-- Strict decoding stops at the first piece that is not in the set. -/
theorem rejects_decodeFrom (charset : Charset) (position : Nat)
    (bytes : Bytes) :
    Rejects IsUndecodable
      (decodeFrom charset strictName position bytes) := by
  induction measured : bytes.length using Nat.strongRecOn
    generalizing position bytes with
  | ind size inductionHypothesis =>
      cases bytes with
      | nil =>
          rw [decodeFrom]
          exact .ok _
      | cons lead rest =>
          have shorter : (rest.drop
              ((nextPiece charset lead rest).2 - 1)).length < size := by
            rw [← measured, List.length_drop, List.length_cons]
            omega
          have continues := inductionHypothesis _ shorter
            (position + (nextPiece charset lead rest).2) _ rfl
          rw [decodeFrom]
          dsimp only
          split
          · exact continues.map
          · rw [recovery_strictName]
            dsimp only
            refine .bind (.error ⟨_, _, _, _, rfl⟩) fun _ impossible => ?_
            cases impossible

end Charset

namespace TextRules

/-- The names of the rules under which every octet string is either decoded or
reported as a defect. -/
def strictCharsets : List Text :=
  ["bytes", "ASCII", "latin-1", "utf-8"].map Text.ofString

/-- Strict rules for a known character set. -/
structure IsStrict (rules : TextRules) : Prop where
  charset : rules.charset ∈ strictCharsets
  recovery : rules.recovery = Charset.strictName

theorem charset_known {name : Text} (known : name ∈ strictCharsets)
    (noBytes : name ≠ bytesRule) :
    ∃ charset, Charset.ofName? name = some charset := by
  unfold strictCharsets at known
  simp only [List.map_cons, List.map_nil, List.mem_cons, List.not_mem_nil,
    or_false] at known
  rcases known with rfl | rfl | rfl | rfl
  · exact absurd rfl noBytes
  · exact ⟨.ascii, by decide⟩
  · exact ⟨.latin1, by decide⟩
  · exact ⟨.utf8, by decide⟩

theorem IsStrict.decode {rules : TextRules} (isStrict : rules.IsStrict)
    (length : Nat) (content : Bytes) :
    Rejects (Failure.IsWithin length) (rules.decode content) := by
  unfold TextRules.decode
  by_cases kept : rules.charset = bytesRule
  · rw [if_pos kept]
    exact .ok _
  · obtain ⟨charset, known⟩ := charset_known isStrict.charset kept
    have undecodable : Rejects Charset.IsUndecodable
        (Charset.decodeNamed rules.charset rules.recovery content) := by
      rw [Charset.decodeNamed_of_known known, isStrict.recovery]
      exact Charset.rejects_decodeFrom charset 0 content
    rw [if_neg kept]
    cases decoded : Charset.decodeNamed rules.charset rules.recovery
        content with
    | ok text => exact .ok _
    | error fault =>
        obtain ⟨_, _, _, _, rfl⟩ := undecodable fault decoded
        exact .error (Failure.isWithin_ofCause length _)

end TextRules

/-! ## Sources -/

/-- Objects that a registry of records leaves alone: no arrays, and no views of
arrays. -/
def Object.IsSimple : Object → Prop
  | .array _ => False
  | .view shown => shown.shape ≠ []
  | _ => True

/-- A heap under a registry in which all objects are simple. -/
structure Heap.IsSimple (registry : Registry) (heap : Heap) : Prop where
  governed : heap.IsGoverned registry
  objects : ∀ address, (heap.get address).IsSimple

/-- A source in the middle of a byte string, with a simple heap. -/
structure Source.IsOn (length : Nat) (registry : Registry)
    (source : Source) : Prop where
  reader : source.reader.IsOn length
  heap : source.heap.IsSimple registry

namespace Decoding

variable {length : Nat} {registry : Registry} {α : Type}

/-- Reading in the middle of a byte string. -/
theorem meets_reading {action : Reading α} {ends : α → Prop}
    (reads : ∀ reader : Reader, reader.IsOn length →
      EndsIn (fun result after => ends result ∧ after.IsOn length)
        (fun failure _ => failure.IsWithin length) (action reader)) :
    Meets (Source.IsOn length registry) (reading action)
      (fun result source => ends result ∧ source.IsOn length registry)
      (fun failure _ => failure.IsWithin length) := by
  intro source here
  have read := reads source.reader here.reader
  unfold reading
  cases outcome : action source.reader with
  | ok result reader =>
      rw [outcome] at read
      exact ⟨read.1, read.2, here.heap⟩
  | error failure reader =>
      rw [outcome] at read
      exact read

end Decoding

namespace Instruction

variable {length : Nat} {registry : Registry} {rules : TextRules}

theorem argues_isWithin (isStrict : rules.IsStrict) (opcode : Opcode) :
    Argues rules opcode (Source.IsOn length registry)
      (fun failure _ => failure.IsWithin length) where
  read count small :=
    Decoding.meets_reading fun reader isOn => isOn.read small
  readLine := by
    have reads : Meets (Source.IsOn length registry) Decoding.readLine
        (fun _ source => True ∧ source.IsOn length registry)
        (fun failure _ => failure.IsWithin length) := by
      refine Decoding.meets_reading fun reader isOn => ?_
      have ends := isOn.readLine
      cases outcome : reader.readLine with
      | ok data after =>
          rw [outcome] at ends
          exact ⟨trivial, ends⟩
      | error failure after =>
          rw [outcome] at ends
          exact ends
    exact reads.mono (fun _ here => here) (fun _ _ ends => ends.2)
      (fun _ _ failed => failed)
  decode _ content _ _ := isStrict.decode length content
  malformed cause _ _ _ := Failure.isWithin_ofCause length cause
  unsupported other _ _ := Failure.isWithin_ofCause length _

/-- What the argument of an opcode makes sure of: an object that is pushed is
simple, and a frame is not too large. -/
def IsModest : Instruction → Prop
  | pushObject object => object.IsData ∧ object.IsSimple
  | frame size => size ≤ maxSize
  | _ => True

theorem isModest_ofOpcode (rules : TextRules) (opcode : Opcode) :
    Returns IsModest (ofOpcode rules opcode) := by
  cases opcode with
  | proto =>
      refine .bind fun version => ?_
      split
      · exact .throw _
      · exact .pure trivial
  | frame =>
      refine .bind fun size => ?_
      split
      · exact .throw _
      · next bounded =>
          exact .pure (Nat.le_of_not_lt bounded)
  | string | binString | shortBinString | unicode | binUnicode |
    binUnicode8 | shortBinUnicode | int | long | float | get | put |
    «global» | inst =>
      exact .bind fun _ => .bind fun _ => .pure trivial
  | binInt | binInt1 | binInt2 | long1 | long4 | binFloat | binBytes |
    shortBinBytes | binBytes8 | binGet | longBinGet | binPut | longBinPut =>
      exact .bind fun _ => .pure trivial
  | byteArray8 => exact .bind fun _ => .pure ⟨trivial, trivial⟩
  | emptyList | emptyDict | emptySet => exact .pure ⟨trivial, trivial⟩
  | persId | binPersId | ext1 | ext2 | ext4 | nextBuffer =>
      exact .throw _
  | _ => exact .pure trivial

end Instruction

end PickleGraph
