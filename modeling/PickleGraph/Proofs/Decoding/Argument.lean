import PickleGraph.Machine.Instruction
import PickleGraph.Proofs.Decoding.Parallel

/-!
# Arguments are read directly

The argument of an opcode is put together from elementary actions, and what it
says does not depend on the place where it stands. Nothing is made in the heap
before the instruction is executed.
-/

namespace PickleGraph

/-- A value with nothing inside. -/
inductive Value.IsLeaf : Value → Prop
  | none : IsLeaf .none
  | bool (value : Bool) : IsLeaf (.bool value)
  | int (value : Int) : IsLeaf (.int value)
  | str (text : Text) : IsLeaf (.str text)
  | bytes (content : Bytes) : IsLeaf (.bytes content)
  | unit : IsLeaf (.tuple [])

/-- An object with nothing inside. -/
inductive Object.IsBlank : Object → Prop
  | list : IsBlank (.list #[])
  | dict : IsBlank (.dict false [])
  | set : IsBlank (.set [])
  | bytearray (content : Bytes) : IsBlank (.bytearray content)

/-- The opcodes that look at the memo. -/
def Opcode.usesMemo : Opcode → Bool
  | .get | .binGet | .longBinGet | .put | .binPut | .longBinPut
  | .memoize => true
  | _ => false

namespace Instruction

open Actions Decoding

/-! ## Fields of arguments -/

theorem direct_natural (width : Nat) :
    Direct (natural width) :=
  .bind (.read width) fun _ => .pure _

theorem direct_signed (width : Nat) :
    Direct (signed width) :=
  .bind (.read width) fun _ => .pure _

theorem direct_line : Direct line :=
  .bind .readLine fun _ => .pure _

theorem direct_counted (width : Nat) (opcode : Opcode) :
    Direct (counted width opcode) := by
  refine .bind (direct_natural width) fun length => ?_
  split
  · exact .throw _
  · exact .read length

theorem direct_countedSigned (name : String) :
    Direct (countedSigned name) := by
  refine .bind (direct_signed 4) fun length => ?_
  split
  · exact .throw _
  · exact .read length.toNat

theorem direct_utf8Text (content : Bytes) :
    Direct (utf8Text content) := by
  unfold utf8Text
  split
  · exact .pure _
  · exact .throw _

/-! ## Lines -/

theorem direct_numeral (name : String) (digits : Bytes) :
    Direct (numeral name digits) := by
  unfold numeral
  split
  · exact .pure _
  · exact .throw _

theorem direct_numeralOrTruth (digits : Bytes) :
    Direct (numeralOrTruth digits) := by
  unfold numeralOrTruth
  split
  · exact .pure _
  · split
    · exact .pure _
    · exact .bind (direct_numeral "INT" digits) fun _ => .pure _

theorem direct_longNumeral (digits : Bytes) :
    Direct (longNumeral digits) := by
  unfold longNumeral
  split
  · exact direct_numeral _ _
  · exact direct_numeral _ _

theorem direct_decimalNumber (digits : Bytes) :
    Direct (decimalNumber digits) := by
  unfold decimalNumber
  split
  · exact .pure _
  · exact .throw _

theorem direct_quotedString (rules : TextRules) (content : Bytes) :
    Direct (quotedString rules content) := by
  unfold quotedString
  split
  · exact .throw _
  · split
    · exact .throw _
    · exact .answer _

theorem direct_escapedText (content : Bytes) :
    Direct (escapedText content) := by
  unfold escapedText
  split
  · exact .pure _
  · exact .throw _

theorem direct_nameLine : Direct nameLine := by
  refine .bind direct_line fun content => ?_
  split
  · exact .pure _
  · exact .throw _

/-! ## Opcodes -/

theorem direct_protocolVersion :
    Direct protocolVersion := by
  refine .bind (direct_natural 1) fun version => ?_
  split
  · exact .throw _
  · exact .pure _

theorem direct_frameSize : Direct frameSize := by
  refine .bind (direct_natural 8) fun size => ?_
  split
  · exact .throw _
  · exact .pure _

theorem direct_countedNumber (width : Nat) :
    Direct (countedNumber width) := by
  unfold countedNumber
  split
  · refine .bind (direct_natural 1) fun length => ?_
    exact .bind (.read length) fun _ => .pure _
  · exact .bind (direct_countedSigned _) fun _ => .pure _

theorem direct_ofOpcode (rules : TextRules) (opcode : Opcode) :
    Direct (ofOpcode rules opcode) := by
  cases opcode with
  | proto => exact direct_protocolVersion
  | frame => exact direct_frameSize
  | int =>
      exact .bind direct_line fun digits =>
        .bind (direct_numeralOrTruth digits) fun _ => .pure _
  | binInt => exact .bind (direct_signed 4) fun _ => .pure _
  | binInt1 => exact .bind (direct_natural 1) fun _ => .pure _
  | binInt2 => exact .bind (direct_natural 2) fun _ => .pure _
  | long =>
      exact .bind direct_line fun digits =>
        .bind (direct_longNumeral digits) fun _ => .pure _
  | long1 => exact .bind (direct_countedNumber 1) fun _ => .pure _
  | long4 => exact .bind (direct_countedNumber 4) fun _ => .pure _
  | float =>
      exact .bind direct_line fun digits =>
        .bind (direct_decimalNumber digits) fun _ => .pure _
  | binFloat => exact .bind (.read 8) fun _ => .pure _
  | string =>
      exact .bind direct_line fun content =>
        .bind (direct_quotedString rules content) fun _ => .pure _
  | binString =>
      exact .bind (direct_countedSigned _) fun _ =>
        .bind (.answer _) fun _ => .pure _
  | shortBinString =>
      exact .bind (direct_counted 1 _) fun _ =>
        .bind (.answer _) fun _ => .pure _
  | unicode =>
      exact .bind direct_line fun content =>
        .bind (direct_escapedText content) fun _ => .pure _
  | binUnicode =>
      exact .bind (direct_counted 4 _) fun content =>
        .bind (direct_utf8Text content) fun _ => .pure _
  | binUnicode8 =>
      exact .bind (direct_counted 8 _) fun content =>
        .bind (direct_utf8Text content) fun _ => .pure _
  | shortBinUnicode =>
      exact .bind (direct_counted 1 _) fun content =>
        .bind (direct_utf8Text content) fun _ => .pure _
  | binBytes => exact .bind (direct_counted 4 _) fun _ => .pure _
  | shortBinBytes => exact .bind (direct_counted 1 _) fun _ => .pure _
  | binBytes8 => exact .bind (direct_counted 8 _) fun _ => .pure _
  | byteArray8 => exact .bind (direct_counted 8 _) fun _ => .pure _
  | get =>
      exact .bind direct_line fun digits =>
        .bind (direct_numeral _ digits) fun _ => .pure _
  | binGet => exact .bind (direct_natural 1) fun _ => .pure _
  | longBinGet => exact .bind (direct_natural 4) fun _ => .pure _
  | put =>
      exact .bind direct_line fun digits =>
        .bind (direct_numeral _ digits) fun _ => .pure _
  | binPut => exact .bind (direct_natural 1) fun _ => .pure _
  | longBinPut => exact .bind (direct_natural 4) fun _ => .pure _
  | «global» | inst =>
      exact .bind direct_nameLine fun _ =>
        .bind direct_nameLine fun _ => .pure _
  | persId | binPersId | ext1 | ext2 | ext4 | nextBuffer =>
      exact .throw _
  | _ => exact .pure _

theorem parallel_ofOpcode {nested other : Decoding Value}
    (rules : TextRules) (opcode : Opcode) :
    Parallel nested other (ofOpcode rules opcode)
      (ofOpcode rules opcode) :=
  (direct_ofOpcode rules opcode).parallel

/-! ## Instructions of opcodes -/

/-- An instruction that an opcode may stand for: the objects it pushes itself
are data, few opcodes look at the memo, and one opcode alone opens a frame, adds
several entries or members, gives a state or numbers a slot. -/
def Suits (opcode : Opcode) : Instruction → Prop
  | pushObject object => object.IsData
  | get _ | put _ => opcode.usesMemo = true
  | frame _ => opcode = .frame
  | setItems => opcode = .setItems
  | addItems => opcode = .addItems
  | build => opcode = .build
  | memoize => opcode = .memoize
  | _ => True

theorem suits_ofOpcode (rules : TextRules) (opcode : Opcode) :
    Returns (Suits opcode) (ofOpcode rules opcode) := by
  cases opcode with
  | proto =>
      refine .bind fun version => ?_
      split
      · exact .throw _
      · exact .pure trivial
  | frame =>
      refine .bind fun size => ?_
      split
      · exact .throw _
      · exact .pure rfl
  | string | binString | shortBinString | unicode | binUnicode |
    binUnicode8 | shortBinUnicode | int | long | float | «global» | inst =>
      exact .bind fun _ => .bind fun _ => .pure trivial
  | binInt | binInt1 | binInt2 | long1 | long4 | binFloat | binBytes |
    shortBinBytes | binBytes8 | byteArray8 =>
      exact .bind fun _ => .pure trivial
  | get | put => exact .bind fun _ => .bind fun _ => .pure rfl
  | binGet | longBinGet | binPut | longBinPut =>
      exact .bind fun _ => .pure rfl
  | persId | binPersId | ext1 | ext2 | ext4 | nextBuffer =>
      exact .throw _
  | setItems | addItems | build | memoize => exact .pure rfl
  | _ => exact .pure trivial

/-! ## What is pushed -/

/-- What an instruction pushes by itself has nothing inside. -/
def IsBare : Instruction → Prop
  | push value => value.IsLeaf
  | pushObject object => object.IsBlank
  | _ => True

/-- The action gives values with nothing inside. -/
abbrev ReturnsLeaf (action : Decoding Value) : Prop :=
  Returns Value.IsLeaf action

theorem returnsLeaf_utf8Text (content : Bytes) :
    ReturnsLeaf (utf8Text content) := by
  unfold utf8Text
  split
  · exact .pure (.str _)
  · exact .throw _

theorem returnsLeaf_numeralOrTruth (digits : Bytes) :
    ReturnsLeaf (numeralOrTruth digits) := by
  unfold numeralOrTruth
  split
  · exact .pure (.bool false)
  · split
    · exact .pure (.bool true)
    · exact .bind fun number => .pure (.int number)

theorem returnsLeaf_decode (rules : TextRules) (content : Bytes) :
    ReturnsLeaf (Decoding.query fun _ => rules.decode content) := by
  intro source value after queried
  unfold Decoding.query at queried
  split at queried
  · next decoded =>
      cases queried
      unfold TextRules.decode at decoded
      split at decoded
      · cases decoded
        exact .bytes content
      · split at decoded
        · next text _ =>
            cases decoded
            exact .str text
        · cases decoded
        · cases decoded
  · cases queried

theorem returnsLeaf_quotedString (rules : TextRules) (content : Bytes) :
    ReturnsLeaf (quotedString rules content) := by
  unfold quotedString
  split
  · exact .throw _
  · split
    · exact .throw _
    · exact returnsLeaf_decode rules _

theorem returnsLeaf_escapedText (content : Bytes) :
    ReturnsLeaf (escapedText content) := by
  unfold escapedText
  split
  · exact .pure (.str _)
  · exact .throw _

theorem returnsLeaf_countedNumber (width : Nat) :
    ReturnsLeaf (countedNumber width) := by
  unfold countedNumber
  split
  · exact .bind fun _ => .bind fun _ => .pure (.int _)
  · exact .bind fun _ => .pure (.int _)

theorem isBare_ofOpcode (rules : TextRules) (opcode : Opcode) :
    Returns IsBare (ofOpcode rules opcode) := by
  have pushes : ∀ {action : Decoding Value}, ReturnsLeaf action →
      Returns IsBare (do return push (← action)) :=
    fun leaf => .seq leaf fun _ isLeaf => .pure isLeaf
  cases opcode with
  | proto | frame =>
      refine .bind fun number => ?_
      split
      · exact .throw _
      · exact .pure trivial
  | int => exact .bind fun digits => pushes (returnsLeaf_numeralOrTruth digits)
  | long1 | long4 => exact pushes (returnsLeaf_countedNumber _)
  | string =>
      exact .bind fun content => pushes (returnsLeaf_quotedString rules content)
  | binString | shortBinString =>
      exact .bind fun content => pushes (returnsLeaf_decode rules content)
  | unicode =>
      exact .bind fun content => pushes (returnsLeaf_escapedText content)
  | binUnicode | binUnicode8 | shortBinUnicode =>
      exact .bind fun content => pushes (returnsLeaf_utf8Text content)
  | long => exact .bind fun _ => .bind fun number => .pure (.int number)
  | float | get | put | «global» | inst =>
      exact .bind fun _ => .bind fun _ => .pure trivial
  | binInt | binInt1 | binInt2 => exact .bind fun _ => .pure (.int _)
  | binBytes | shortBinBytes | binBytes8 =>
      exact .bind fun content => .pure (.bytes content)
  | byteArray8 => exact .bind fun content => .pure (.bytearray content)
  | binFloat | binGet | longBinGet | binPut | longBinPut =>
      exact .bind fun _ => .pure trivial
  | none => exact .pure .none
  | newTrue | newFalse => exact .pure (.bool _)
  | emptyTuple => exact .pure .unit
  | emptyList => exact .pure .list
  | emptyDict => exact .pure .dict
  | emptySet => exact .pure .set
  | persId | binPersId | ext1 | ext2 | ext4 | nextBuffer =>
      exact .throw _
  | _ => exact .pure trivial

end Instruction

end PickleGraph
