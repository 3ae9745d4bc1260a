import PickleGraph.Proofs.Machine.Construction
import PickleGraph.Proofs.Objects.Item

/-!
# Strings of octets

A string of octets stands between quotes, where each octet is written as it is or
as an escape, or behind its length. However it is written, the rules for texts
are asked for the same octets. A text stands behind its length too, and its
octets are taken exactly if they write a text in UTF-8.
-/

namespace PickleGraph

open Actions

namespace Escape

/-! ## Ways to write an octet -/

/-- The letters that stand for one octet after a backslash. -/
def octetLetters : List (UInt8 × UInt8) :=
  [(0x5C, 0x5C), (0x27, 0x27), (0x22, 0x22), (0x6E, 0x0A), (0x72, 0x0D),
    (0x74, 0x09)]

/-- The digit for a number below sixteen, in either case. -/
def IsDigitOf (number : Nat) (digit : UInt8) : Prop :=
  (Bytes.ofString "0123456789abcdef")[number]? = some digit ∨
    (Bytes.ofString "0123456789ABCDEF")[number]? = some digit

/-- The ways to write an octet between two quotes. -/
inductive Writes (quote octet : UInt8) : Bytes → Prop
  | raw : octet ≠ 0x0A → octet ≠ 0x5C → octet ≠ quote →
      Writes quote octet [octet]
  | letter {letter : UInt8} : (letter, octet) ∈ octetLetters →
      Writes quote octet [0x5C, letter]
  | hex {high low : Nat} {first second : UInt8} :
      IsDigitOf high first → IsDigitOf low second →
      octet.toNat = 16 * high + low →
      Writes quote octet [0x5C, 0x78, first, second]

/-- The octets are written one after the other, each in a way of its own. -/
inductive Spells (quote : UInt8) : Bytes → Bytes → Prop
  | nil : Spells quote [] []
  | cons {octet : UInt8} {written content body : Bytes} :
      Writes quote octet written → Spells quote content body →
      Spells quote (octet :: content) (written ++ body)

theorem IsDigitOf.isHexDigit {number : Nat} {digit : UInt8}
    (isDigit : IsDigitOf number digit) :
    isHexDigit digit = true ∧ hexValue digit = number := by
  have bound : number < 16 := by
    rcases isDigit with lower | upper
    · exact (List.getElem?_eq_some_iff.mp lower).1
    · exact (List.getElem?_eq_some_iff.mp upper).1
  have each : ∀ number < 16, ∀ digits ∈
      [Bytes.ofString "0123456789abcdef", Bytes.ofString "0123456789ABCDEF"],
      digits[number]?.all (fun digit =>
        Escape.isHexDigit digit && hexValue digit == number) = true := by
    decide
  have sound (digits : Bytes) (member : digits ∈
      [Bytes.ofString "0123456789abcdef", Bytes.ofString "0123456789ABCDEF"])
      (here : digits[number]? = some digit) :
      Escape.isHexDigit digit = true ∧ hexValue digit = number := by
    have checked := each number bound digits member
    rw [here] at checked
    simpa using checked
  rcases isDigit with lower | upper
  · exact sound _ (by simp) lower
  · exact sound _ (by simp) upper

theorem lookup_octetLetters {letter octet : UInt8}
    (member : (letter, octet) ∈ octetLetters) :
    simpleEscapes.lookup letter = some octet ∧ letter ≠ 0x0A := by
  have each : octetLetters.all (fun entry =>
      simpleEscapes.lookup entry.1 == some entry.2 &&
        entry.1 != 0x0A) = true := by
    decide
  simpa using List.all_eq_true.mp each _ member

/-- What an octet is written as is resolved to the octet. -/
theorem unescapeFrom_writes {quote octet : UInt8} {written : Bytes}
    (writes : Writes quote octet written) (position : Nat) (rest : Bytes) :
    ∃ place, unescapeFrom position (written ++ rest) =
      (unescapeFrom place rest).map (octet :: ·) := by
  cases writes with
  | raw _ noBackslash _ =>
      refine ⟨position + 1, ?_⟩
      rw [List.singleton_append, unescapeFrom.eq_def]
      simp [noBackslash]
  | letter member =>
      refine ⟨position + 2, ?_⟩
      rw [List.cons_append, unescapeFrom.eq_def]
      simp [(lookup_octetLetters member).1]
  | @hex high low first second isFirst isSecond value =>
      obtain ⟨firstDigit, firstValue⟩ := isFirst.isHexDigit
      obtain ⟨secondDigit, secondValue⟩ := isSecond.isHexDigit
      have number : UInt8.ofNat (hexNumber [first, second]) = octet := by
        have sum : hexNumber [first, second] = octet.toNat := by
          simp only [hexNumber, List.foldl_cons, List.foldl_nil, firstValue,
            secondValue]
          omega
        rw [sum, UInt8.ofNat_toNat]
      have noLetter : simpleEscapes.lookup 0x78 = none := by decide
      have noOctal : isOctalDigit 0x78 = false := by decide
      refine ⟨position + 4, ?_⟩
      rw [List.cons_append, unescapeFrom.eq_def]
      simp [noLetter, noOctal, firstDigit, secondDigit, number]

theorem newline_notMem_writes {quote octet : UInt8} {written : Bytes}
    (writes : Writes quote octet written) : (0x0A : UInt8) ∉ written := by
  have noDigit : ∀ {number : Nat} {digit : UInt8},
      IsDigitOf number digit → (0x0A : UInt8) ≠ digit := by
    rintro number digit isDigit rfl
    exact absurd isDigit.isHexDigit.1 (by decide)
  cases writes with
  | raw noNewline _ _ => simpa using noNewline.symm
  | letter member => simp [(lookup_octetLetters member).2.symm]
  | hex isFirst isSecond _ => simp [noDigit isFirst, noDigit isSecond]

variable {quote : UInt8} {content body : Bytes}

theorem Spells.unescapeFrom_eq (spells : Spells quote content body)
    (position : Nat) : unescapeFrom position body = .ok content := by
  induction spells generalizing position with
  | nil => rw [unescapeFrom]
  | @cons octet written content body writes _ inductionHypothesis =>
      obtain ⟨place, resolved⟩ := unescapeFrom_writes writes position body
      rw [resolved, inductionHypothesis place]
      rfl

theorem Spells.newline_notMem (spells : Spells quote content body) :
    (0x0A : UInt8) ∉ body := by
  induction spells with
  | nil => simp
  | cons writes _ inductionHypothesis =>
      simp [newline_notMem_writes writes, inductionHypothesis]

end Escape

/-! ## Rules for texts -/

namespace TextRules

/-- The rules fail because of octets or because of their names. -/
theorem decode_eq_error {rules : TextRules} {content : Bytes}
    {failure : Failure} (failed : rules.decode content = .error failure) :
    (∃ cause, failure = .defect cause none) ∨
      ∃ refusal, failure = .refused refusal := by
  unfold decode at failed
  split at failed
  · cases failed
  · split at failed
    · cases failed
    · cases failed
      exact .inl ⟨_, rfl⟩
    · cases failed
      exact .inr ⟨_, rfl⟩

theorem decode_bytes {rules : TextRules}
    (keepsBytes : rules.charset = bytesRule) (content : Bytes) :
    rules.decode content = .ok (.bytes content) :=
  if_pos keepsBytes

theorem decodeFrom_latin1 (recovery : Text) (position : Nat)
    (content : Bytes) :
    Charset.decodeFrom .latin1 recovery position content =
      .ok (Text.ofLatin1 content) := by
  induction content generalizing position with
  | nil =>
      rw [Charset.decodeFrom]
      rfl
  | cons octet content inductionHypothesis =>
      rw [Charset.decodeFrom.eq_def]
      simp only [Charset.nextPiece, Nat.sub_self, List.drop_zero,
        inductionHypothesis]
      rfl

theorem decode_latin1 {rules : TextRules}
    (isLatin1 : Charset.ofName? rules.charset = some .latin1)
    (content : Bytes) :
    rules.decode content = .ok (.str (Text.ofLatin1 content)) := by
  have notBytes : rules.charset ≠ bytesRule := by
    intro same
    have unknown : Charset.ofName? bytesRule = none := by decide
    rw [same, unknown] at isLatin1
    cases isLatin1
  have decoded : Charset.decodeNamed rules.charset rules.recovery content =
      .ok (Text.ofLatin1 content) := by
    rw [Charset.decodeNamed_of_known isLatin1]
    exact decodeFrom_latin1 _ 0 _
  unfold decode
  rw [if_neg notBytes, decoded]

end TextRules

/-! ## Opcodes for strings of octets -/

/-- The three ways to write a string of octets: between quotes, or behind its
length in four octets or in one. -/
inductive WritesOctets (content : Bytes) : Opcode → Bytes → Prop
  | quoted {quote : UInt8} {body : Bytes} :
      quote = 0x22 ∨ quote = 0x27 → Escape.Spells quote content body →
      WritesOctets content .string (quote :: (body ++ [quote]) ++ [0x0A])
  | long : content.length < 2 ^ 31 →
      WritesOctets content .binString
        (Bytes.ofNatLE 4 content.length ++ content)
  | short : content.length < 256 →
      WritesOctets content .shortBinString
        (Bytes.ofNatLE 1 content.length ++ content)

theorem WritesOctets.carries {content argument : Bytes} {opcode : Opcode}
    (writes : WritesOctets content opcode argument) :
    Carries content opcode argument := by
  cases writes with
  | quoted isQuote spells =>
      exact .quoted isQuote spells.newline_notMem (spells.unescapeFrom_eq 0)
  | long bound => exact .long bound
  | short bound => exact .short bound

namespace Execution

variable {options : Options} {content argument : Bytes} {opcode : Opcode}

/-- How an opcode ends that pushes a value, or fails where there is none. -/
def pushed (opcode : Opcode) (decoded : Except Failure Value)
    (machine : Machine) : EStateM.Result Failure Machine (Option Value) :=
  match decoded with
  | .ok value => .ok none ((machine.withTop value).record opcode)
  | .error failure => .error failure machine

theorem step_pushed {nested : Decoding Value} {machine opened : Machine}
    {source : Source} {decoded : Except Failure Value}
    (read : readOpcode machine = .ok opcode opened)
    (parsed : Instruction.ofOpcode options.rules opcode opened.source =
      match decoded with
      | .ok value => .ok (.push value) source
      | .error failure => .error failure source) :
    step options nested machine =
      pushed opcode decoded { opened with source } := by
  rw [step_eq, bind_of_eq_ok read]
  cases decoded with
  | ok value =>
      have instructed :
          decoding (Instruction.ofOpcode options.rules opcode) opened =
            .ok (.push value) { opened with source } :=
        decoding_eq_ok_iff.mpr ⟨source, parsed, rfl⟩
      rw [perform, bind_of_eq_ok instructed]
      rfl
  | error failure =>
      have failed :
          decoding (Instruction.ofOpcode options.rules opcode) opened =
            .error failure { opened with source } := by
        unfold decoding
        rw [parsed]
      exact bind_of_eq_error failed

theorem step_of_carries (carries : Carries content opcode argument)
    (nested : Decoding Value) {machine : Machine} {rest : Bytes}
    (faces : machine.source.reader.Faces
      (opcode.code :: (argument ++ rest))) :
    ∃ reader : Reader, reader.Faces rest ∧
      step options nested machine =
        pushed opcode (options.rules.decode content)
          (machine.beyond reader) := by
  obtain ⟨middle, middleFaces, read⟩ := readOpcode_of_faces faces
  obtain ⟨reader, restFaces, parsed⟩ : ∃ reader : Reader,
      reader.Faces rest ∧
        Instruction.ofOpcode options.rules opcode
            (machine.beyond middle).source =
          (do return .push
                (← Decoding.query fun _ => options.rules.decode content) :
            Decoding Instruction) (machine.beyond reader).source :=
    Instruction.ofOpcode_of_carries carries middleFaces
  refine ⟨reader, restFaces, step_pushed read (parsed.trans ?_)⟩
  cases options.rules.decode content with
  | ok value => rfl
  | error failure => rfl

/-- A pickle whose first opcode pushes a value, or fails, is this value or
fails there. -/
theorem decode_of_pushed {code : Bytes} {decoded : Except Failure Value}
    {start : Machine} {reader : Reader} (isStart : start = startOn code)
    (stepped : step options (nestedPickle options) start =
      pushed opcode decoded (start.beyond reader))
    (decodes : ∀ value, decoded = .ok value →
      options.decode code = .ok (value, .empty))
    (fails : ∀ failure, decoded = .error failure →
      (∃ cause, failure = .defect cause none) ∨
        ∃ refusal, failure = .refused refusal) :
    options.decode code =
      (decoded.mapError (·.locate 0)).map
        fun value => (value, Heap.empty) := by
  cases decoded with
  | ok value => exact decodes value rfl
  | error failure =>
      subst isStart
      have loaded : Machine.load options
          (Machine.ofReader (.ofBytes code) .empty false) =
          placed (throw failure : Execution Value)
            ((startOn code).beyond reader) :=
        (load_eq options _).trans (runToEnd_of_step_error stepped)
      rw [Options.decode, Options.decodeReader, loaded]
      rcases fails failure rfl with ⟨cause, rfl⟩ | ⟨refusal, rfl⟩
      · rfl
      · rfl

/-- A pickle of one string of octets is what the rules make of them. -/
theorem decode_of_carries (carries : Carries content opcode argument)
    (rest : Bytes) :
    options.decode (opcode.code :: (argument ++ Opcode.stop.code :: rest)) =
      ((options.rules.decode content).mapError (·.locate 0)).map
        fun value => (value, Heap.empty) := by
  let start := startOn (opcode.code ::
    (argument ++ Opcode.stop.code :: rest))
  have faces : start.source.reader.Faces (opcode.code ::
      (argument ++ Opcode.stop.code :: rest)) :=
    ⟨rfl, rfl, rfl⟩
  obtain ⟨reader, _, stepped⟩ : ∃ reader : Reader, _ ∧
      step options (nestedPickle options) start = _ :=
    step_of_carries carries (nestedPickle options) faces
  exact decode_of_pushed rfl stepped
    (fun value decoded => Objects.decode_carried carries decoded rest)
    (fun failure failed => TextRules.decode_eq_error failed)

/-- However a string of octets is written, its opcode pushes what the rules for
texts make of the octets, or fails as the rules do: in every machine and as a
pickle of its own. Under the rule for byte strings these are the octets, and in
Latin-1 the text with their code points. -/
theorem step_writesOctets (options : Options)
    (writes : WritesOctets content opcode argument) :
    (∀ (nested : Decoding Value) (machine : Machine) (rest : Bytes),
      machine.source.reader.Faces (opcode.code :: (argument ++ rest)) →
      ∃ reader : Reader, reader.Faces rest ∧
        step options nested machine =
          pushed opcode (options.rules.decode content)
            (machine.beyond reader)) ∧
    (∀ rest : Bytes,
      options.decode
          (opcode.code :: (argument ++ Opcode.stop.code :: rest)) =
        ((options.rules.decode content).mapError (·.locate 0)).map
          fun value => (value, Heap.empty)) ∧
    (options.rules.charset = TextRules.bytesRule →
      options.rules.decode content = .ok (.bytes content)) ∧
    (Charset.ofName? options.rules.charset = some .latin1 →
      options.rules.decode content =
        .ok (.str (content.map CodePoint.ofByte))) :=
  ⟨fun nested _ _ faces => step_of_carries writes.carries nested faces,
    decode_of_carries writes.carries,
    fun keepsBytes => TextRules.decode_bytes keepsBytes content,
    fun isLatin1 => TextRules.decode_latin1 isLatin1 content⟩

/-- A backslash and a double quote beside the delimiter, a single quote, an octet
above ASCII and a newline, in Latin-1. -/
theorem step_writesOctets_escaped :
    let options : Options := { Options.standard with
      rules := ⟨Text.ofString "latin-1", Text.ofString "strict"⟩ }
    let content : Bytes := [0x5C, 0x22, 0x27, 0xE9, 0x0A]
    let body : Bytes := [0x5C, 0x5C, 0x5C, 0x22, 0x27, 0x5C, 0x78, 0x45, 0x39,
      0x5C, 0x6E]
    WritesOctets content .string (0x22 :: (body ++ [0x22]) ++ [0x0A]) ∧
      Charset.ofName? options.rules.charset = some .latin1 ∧
      options.decode (Opcode.string.code ::
          ((0x22 :: (body ++ [0x22]) ++ [0x0A]) ++ [Opcode.stop.code])) =
        .ok (.str (content.map CodePoint.ofByte), .empty) := by
  intro options content body
  have backslash : Escape.Writes 0x22 0x5C [0x5C, 0x5C] :=
    .letter (by decide)
  have double : Escape.Writes 0x22 0x22 [0x5C, 0x22] := .letter (by decide)
  have single : Escape.Writes 0x22 0x27 [0x27] :=
    .raw (by decide) (by decide) (by decide)
  have accented : Escape.Writes 0x22 0xE9 [0x5C, 0x78, 0x45, 0x39] :=
    .hex (.inr rfl : Escape.IsDigitOf 14 0x45)
      (.inl rfl : Escape.IsDigitOf 9 0x39) rfl
  have newline : Escape.Writes 0x22 0x0A [0x5C, 0x6E] := .letter (by decide)
  have spells : Escape.Spells 0x22 content body :=
    .cons backslash (.cons double (.cons single
      (.cons accented (.cons newline .nil))))
  have writes : WritesOctets content .string
      (0x22 :: (body ++ [0x22]) ++ [0x0A]) :=
    .quoted (.inl rfl) spells
  have isLatin1 : Charset.ofName? options.rules.charset = some .latin1 := by
    decide
  obtain ⟨_, decoded, _, inLatin1⟩ := step_writesOctets options writes
  refine ⟨writes, isLatin1, ?_⟩
  rw [decoded, inLatin1 isLatin1]
  rfl

/-! ## Texts in UTF-8 -/

/-- What is made of the octets of a text. -/
def utf8Value (content : Bytes) : Except Failure Value :=
  match Utf8.decodeGeneralized content with
  | .ok text => .ok (.str text)
  | .error fault =>
      .error (.ofCause (.invalidUtf8 (Charset.utf8Message content fault)))

theorem utf8Value_eq_ok_iff {value : Value} :
    utf8Value content = .ok value ↔
      ∃ text, content = Utf8.encodeGeneralized text ∧ value = .str text := by
  unfold utf8Value
  constructor
  · intro made
    split at made
    · next text decoded =>
        cases made
        exact ⟨text, Utf8.decodeGeneralized_eq_ok_iff.mp decoded, rfl⟩
    · cases made
  · rintro ⟨text, rfl, rfl⟩
    rw [Utf8.decodeGeneralized_encodeGeneralized]

theorem utf8Value_eq_error {failure : Failure}
    (failed : utf8Value content = .error failure) :
    ∃ cause, cause.failureClass = .malformedLiteral ∧
      failure = .ofCause cause := by
  unfold utf8Value at failed
  split at failed
  · cases failed
  · cases failed
    exact ⟨_, rfl, rfl⟩

/-- Octets that write no text fail as a malformed literal. -/
theorem utf8Value_of_forall_ne
    (unwritten : ∀ text, content ≠ Utf8.encodeGeneralized text) :
    ∃ cause, cause.failureClass = .malformedLiteral ∧
      utf8Value content = .error (.ofCause cause) := by
  cases made : utf8Value content with
  | ok value =>
      obtain ⟨text, written, _⟩ := utf8Value_eq_ok_iff.mp made
      exact absurd written (unwritten text)
  | error failure =>
      obtain ⟨cause, isMalformed, rfl⟩ := utf8Value_eq_error made
      exact ⟨cause, isMalformed, rfl⟩

/-- Reads an opcode and the content behind a length of this width. -/
def readCounted (width : Nat) : Execution (Opcode × Bytes) := do
  let opcode ← readOpcode
  return (opcode, ← decoding (Instruction.counted width opcode))

theorem step_of_readCounted {width : Nat}
    (isText : Scalar.textWidth? opcode = some width)
    (nested : Decoding Value) {machine after : Machine}
    (read : readCounted width machine = .ok (opcode, content) after) :
    step options nested machine =
      pushed opcode (utf8Value content) after := by
  obtain ⟨found, opened, readFirst, readSecond⟩ := bind_eq_ok_iff.mp read
  obtain ⟨octets, last, readThird, returned⟩ :=
    bind_eq_ok_iff.mp readSecond
  cases returned
  obtain ⟨source, counted, rfl⟩ := decoding_eq_ok_iff.mp readThird
  refine step_pushed readFirst ?_
  have parsed : Instruction.ofOpcode options.rules opcode opened.source =
      (do return .push (← Instruction.utf8Text content) :
        Decoding Instruction) source := by
    cases opcode <;> cases isText <;> exact bind_of_eq_ok counted
  rw [parsed]
  unfold utf8Value
  cases decoded : Utf8.decodeGeneralized content with
  | ok text =>
      have made : Instruction.utf8Text content source =
          .ok (.str text) source := by
        rw [Instruction.utf8Text, decoded]
        rfl
      exact bind_of_eq_ok made
  | error fault =>
      have failed : Instruction.utf8Text content source =
          .error (.ofCause (.invalidUtf8
            (Charset.utf8Message content fault))) source := by
        rw [Instruction.utf8Text, decoded]
        rfl
      exact bind_of_eq_error failed

/-- A pickle of one text. -/
def textPickle (opcode : Opcode) (width : Nat) (content rest : Bytes) :
    Bytes :=
  opcode.code :: (Scalar.counted width content ++ Opcode.stop.code :: rest)

theorem decode_textPickle {width : Nat}
    (isText : Scalar.textWidth? opcode = some width)
    (countable : Scalar.Countable width content) (rest : Bytes) :
    options.decode (textPickle opcode width content rest) =
      ((utf8Value content).mapError (·.locate 0)).map
        fun value => (value, Heap.empty) := by
  let start := startOn (textPickle opcode width content rest)
  have faces : start.source.reader.Faces (opcode.code ::
      (Scalar.counted width content ++ Opcode.stop.code :: rest)) :=
    ⟨rfl, rfl, rfl⟩
  obtain ⟨middle, middleFaces, readFirst⟩ := readOpcode_of_faces faces
  have narrow : width < 2 ^ 63 := by
    cases opcode <;> cases isText <;> decide
  obtain ⟨reader, _, counted⟩ := Instruction.takes_counted opcode narrow
    countable.bound countable.short _ (start.beyond middle).source
    middleFaces
  have read : readCounted width start =
      .ok (opcode, content) (start.beyond reader) := by
    refine (bind_of_eq_ok readFirst).trans ?_
    exact bind_of_eq_ok (decoding_eq_ok_iff.mpr ⟨_, counted, rfl⟩)
  refine decode_of_pushed rfl (step_of_readCounted isText _ read) ?_ ?_
  · intro value made
    obtain ⟨text, written, rfl⟩ := utf8Value_eq_ok_iff.mp made
    have passage : Executes options
        (opcode.code :: Scalar.counted width content)
        ⟨[], [], [], .empty⟩ ⟨[.str text], [], [], .empty⟩ :=
      .of_effect (Scalar.takes_text_of_decode isText countable
        (Utf8.decodeGeneralized_eq_ok_iff.mpr written)) (effect_push _)
    exact passage.decode rest
  · intro failure failed
    obtain ⟨cause, _, rfl⟩ := utf8Value_eq_error failed
    exact .inl ⟨cause, rfl⟩

theorem decode_textPickle_eq_ok_iff {width : Nat}
    (isText : Scalar.textWidth? opcode = some width)
    (countable : Scalar.Countable width content) {rest : Bytes}
    {value : Value} {heap : Heap} :
    options.decode (textPickle opcode width content rest) =
        .ok (value, heap) ↔
      ∃ text, content = Utf8.encodeGeneralized text ∧ value = .str text ∧
        heap = .empty := by
  rw [decode_textPickle isText countable]
  constructor
  · intro decoded
    cases made : utf8Value content with
    | ok found =>
        rw [made] at decoded
        cases decoded
        obtain ⟨text, written, isValue⟩ := utf8Value_eq_ok_iff.mp made
        exact ⟨text, written, isValue, rfl⟩
    | error failure =>
        rw [made] at decoded
        cases decoded
  · rintro ⟨text, written, rfl, rfl⟩
    rw [utf8Value_eq_ok_iff.mpr ⟨text, written, rfl⟩]
    rfl

/-- An opcode for texts takes the octets that write a text, in the generalized
form of UTF-8, for this text, and no others: in every machine, whatever it is
read through, and as a pickle of its own. All others are a malformed literal
there. No two strings of octets are taken for the same text. -/
theorem step_utf8Text (options : Options) {opcode : Opcode} {width : Nat}
    (isText : Scalar.textWidth? opcode = some width) (content : Bytes) :
    (∀ (nested : Decoding Value) (machine after : Machine),
      readCounted width machine = .ok (opcode, content) after →
      (∀ result last,
        step options nested machine = .ok result last ↔
          ∃ text, content = Utf8.encodeGeneralized text ∧ result = none ∧
            last = (after.withTop (.str text)).record opcode) ∧
      ((∀ text, content ≠ Utf8.encodeGeneralized text) →
        ∃ cause, cause.failureClass = .malformedLiteral ∧
          step options nested machine =
            .error (.defect cause none) after)) ∧
    (Scalar.Countable width content → ∀ rest : Bytes,
      (∀ value heap,
        options.decode (textPickle opcode width content rest) =
            .ok (value, heap) ↔
          ∃ text, content = Utf8.encodeGeneralized text ∧
            value = .str text ∧ heap = .empty) ∧
      ((∀ text, content ≠ Utf8.encodeGeneralized text) →
        ∃ cause, cause.failureClass = .malformedLiteral ∧
          options.decode (textPickle opcode width content rest) =
            .error (.defect cause (some 0)))) ∧
    ∀ (otherOpcode : Opcode) (otherWidth : Nat)
      (other rest otherRest : Bytes) (result : Value × Heap),
      Scalar.textWidth? otherOpcode = some otherWidth →
      Scalar.Countable width content → Scalar.Countable otherWidth other →
      options.decode (textPickle opcode width content rest) = .ok result →
      options.decode (textPickle otherOpcode otherWidth other otherRest) =
        .ok result →
      content = other := by
  refine ⟨fun nested machine after read => ?_,
    fun countable rest =>
      ⟨fun _ _ => decode_textPickle_eq_ok_iff isText countable,
        fun unwritten => ?_⟩,
    fun otherOpcode otherWidth other rest otherRest result otherIsText
      countable otherCountable first second => ?_⟩
  · rw [step_of_readCounted isText nested read]
    refine ⟨fun result last => ?_, fun unwritten => ?_⟩
    · constructor
      · intro stepped
        cases made : utf8Value content with
        | ok value =>
            rw [made] at stepped
            cases stepped
            obtain ⟨text, written, rfl⟩ := utf8Value_eq_ok_iff.mp made
            exact ⟨text, written, rfl, rfl⟩
        | error failure =>
            rw [made] at stepped
            cases stepped
      · rintro ⟨text, written, rfl, rfl⟩
        rw [utf8Value_eq_ok_iff.mpr ⟨text, written, rfl⟩]
        rfl
    · obtain ⟨cause, isMalformed, failed⟩ := utf8Value_of_forall_ne unwritten
      rw [failed]
      exact ⟨cause, isMalformed, rfl⟩
  · obtain ⟨cause, isMalformed, failed⟩ := utf8Value_of_forall_ne unwritten
    rw [decode_textPickle isText countable, failed]
    exact ⟨cause, isMalformed, rfl⟩
  · obtain ⟨value, heap⟩ := result
    obtain ⟨text, rfl, rfl, _⟩ :=
      (decode_textPickle_eq_ok_iff isText countable).mp first
    obtain ⟨same, rfl, isSame, _⟩ :=
      (decode_textPickle_eq_ok_iff otherIsText otherCountable).mp second
    cases isSame
    rfl

/-- A surrogate in three octets is a text, and an overlong form is none. -/
theorem step_utf8Text_surrogate :
    Scalar.textWidth? .shortBinUnicode = some 1 ∧
      (∃ after,
        readCounted 1 (startOn
            (textPickle .shortBinUnicode 1 [0xED, 0xA0, 0x80] [])) =
          .ok (.shortBinUnicode, [0xED, 0xA0, 0x80]) after ∧
        step .standard (nestedPickle .standard) (startOn
            (textPickle .shortBinUnicode 1 [0xED, 0xA0, 0x80] [])) =
          .ok none
            ((after.withTop (.str [0xD800])).record .shortBinUnicode)) ∧
      Options.standard.decode
          (textPickle .shortBinUnicode 1 [0xED, 0xA0, 0x80] []) =
        .ok (.str [0xD800], .empty) ∧
      ∃ cause, cause.failureClass = .malformedLiteral ∧
        Options.standard.decode
            (textPickle .shortBinUnicode 1 [0xC0, 0x80] []) =
          .error (.defect cause (some 0)) := by
  have isText : Scalar.textWidth? .shortBinUnicode = some 1 := rfl
  have surrogate : ([0xED, 0xA0, 0x80] : Bytes) =
      Utf8.encodeGeneralized [0xD800] := by
    decide
  have overlong : ∀ text, ([0xC0, 0x80] : Bytes) ≠
      Utf8.encodeGeneralized text := by
    intro text written
    have decoded := Utf8.decodeGeneralized_eq_ok_iff.mpr written
    have refused : Utf8.decodeGeneralized [0xC0, 0x80] =
        .error ⟨0, 1, .invalidStart⟩ := by
      rw [Utf8.decodeGeneralized, Utf8.decodeFrom]
      rfl
    rw [refused] at decoded
    cases decoded
  obtain ⟨steps, decodes, _⟩ := step_utf8Text .standard isText
    [0xED, 0xA0, 0x80]
  obtain ⟨_, fails, _⟩ := step_utf8Text .standard isText [0xC0, 0x80]
  refine ⟨isText, ⟨_, rfl, ?_⟩, ?_, ?_⟩
  · exact ((steps _ _ _ rfl).1 _ _).mpr ⟨[0xD800], surrogate, rfl, rfl⟩
  · exact ((decodes ⟨by decide, by decide⟩ []).1 _ _).mpr
      ⟨[0xD800], surrogate, rfl, rfl⟩
  · exact (fails ⟨by decide, by decide⟩ []).2 overlong

end Execution

end PickleGraph
