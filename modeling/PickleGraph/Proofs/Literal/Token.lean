import PickleGraph.Dtype.Description
import PickleGraph.Proofs.Dtype.Code
import PickleGraph.Proofs.Literal.Quoted
import PickleGraph.Proofs.Number.Integer

/-!
# Texts and their tokens

A text is split into its tokens wherever it stands, as long as what follows does
not go on with its last token and the brackets around it are not too deep. This
holds of quotations, numerals, names and marks, and of what is put together from
them.
-/

namespace PickleGraph.Literal

/-! ## What follows a token -/

/-- Nothing that would go on with a name, a numeral or a quotation. -/
def Ends (rest : Text) : Prop :=
  ∀ point ∈ rest.head?, isNamePart point = false ∧
    isQuote point = false ∧ point.isChar '.' = false

@[simp] theorem ends_cons {point : CodePoint} {rest : Text} :
    Ends (point :: rest) ↔ isNamePart point = false ∧
      isQuote point = false ∧ point.isChar '.' = false := by
  simp [Ends]

/-! ## Steps -/

/-- What is split off later, after these tokens. -/
def prepend (tokens : List Token) (result : Option (List Token × Text)) :
    Option (List Token × Text) :=
  result.map (Prod.map (tokens ++ ·) id)

@[simp] theorem prepend_some (tokens later : List Token) (rest : Text) :
    prepend tokens (some (later, rest)) = some (tokens ++ later, rest) :=
  rfl

@[simp] theorem prepend_nil (result : Option (List Token × Text)) :
    prepend [] result = result := by
  cases result with
  | none => rfl
  | some found => rfl

@[simp] theorem prepend_prepend (tokens later : List Token)
    (result : Option (List Token × Text)) :
    prepend tokens (prepend later result) =
      prepend (tokens ++ later) result := by
  cases result with
  | none => rfl
  | some found => simp [prepend, Prod.map]

/-- A character that a token starts with. -/
structure IsStart (point : CodePoint) : Prop where
  notBlank : isBlank point = false
  notNewline : isNewline point = false
  notComment : point.isChar '#' = false
  notJoined : point.isChar '\\' = false

theorem takeTokens?_token {point : CodePoint} {others after : Text}
    {token : Token} {depth : Nat} (isStart : IsStart point)
    {names : CharacterNames}
    (taken : takeToken? names (point :: others) = some (token, after))
    (shallow : token.depthAfter depth ≤ maxDepth) (steps : Nat) :
    takeTokens? names (steps + 1) depth (point :: others) =
      prepend [token]
        (takeTokens? names steps (token.depthAfter depth) after) := by
  obtain ⟨notBlank, notNewline, notComment, notJoined⟩ := isStart
  rw [takeTokens?.eq_def]
  simp only [notBlank, notNewline, notComment, notJoined, Bool.false_eq_true,
    if_false, taken, Option.bind_eq_bind, Option.bind_some, shallow,
    guard_true]
  cases takeTokens? names steps (token.depthAfter depth) after with
  | none => rfl
  | some result => rfl

theorem takeTokens?_blank {point : CodePoint}
    (isBlank : Literal.isBlank point = true) (names : CharacterNames)
    (steps depth : Nat) (rest : Text) :
    takeTokens? names (steps + 1) depth (point :: rest) =
      takeTokens? names steps depth rest := by
  rw [takeTokens?.eq_def]
  exact if_pos isBlank

/-- A character that is a token by itself. -/
structure IsMark (point : CodePoint) (token : Token) : Prop where
  isStart : IsStart point
  isToken : markToken? point = some token
  clean : Text.IsClean [point]

theorem IsMark.takeToken?_eq {point : CodePoint} {token : Token}
    (isMark : IsMark point token) (names : CharacterNames) (rest : Text) :
    takeToken? names (point :: rest) = some (token, rest) := by
  simp only [takeToken?, isMark.isToken]

/-- The marks of containers. -/
def marks : List (Char × Token) :=
  [(',', .comma), (':', .colon), ('(', .opening .round),
    (')', .closing .round), ('[', .opening .square),
    (']', .closing .square), ('\x7b', .opening .curly),
    ('\x7d', .closing .curly)]

section Marks

variable {mark : Char} {token : Token} (member : (mark, token) ∈ marks)

include member

theorem isMark_of_mem : IsMark (CodePoint.ofChar mark) token := by
  have each : ∀ entry ∈ marks,
      isBlank (CodePoint.ofChar entry.1) = false ∧
        isNewline (CodePoint.ofChar entry.1) = false ∧
        (CodePoint.ofChar entry.1).isChar '#' = false ∧
        (CodePoint.ofChar entry.1).isChar '\\' = false ∧
        markToken? (CodePoint.ofChar entry.1) = some entry.2 ∧
        (CodePoint.ofChar entry.1).val ≠ 0 ∧
        (CodePoint.ofChar entry.1).val ≠ 0x0D := by
    decide
  obtain ⟨notBlank, notNewline, notComment, notJoined, isToken, clean⟩ :=
    each _ member
  exact ⟨⟨notBlank, notNewline, notComment, notJoined⟩, isToken,
    Text.isClean_singleton.mpr clean⟩

theorem ends_mark (rest : Text) : Ends (CodePoint.ofChar mark :: rest) := by
  have each : ∀ entry ∈ marks,
      isNamePart (CodePoint.ofChar entry.1) = false ∧
        isQuote (CodePoint.ofChar entry.1) = false ∧
        (CodePoint.ofChar entry.1).isChar '.' = false := by
    decide
  exact ends_cons.mpr (each _ member)

end Marks

/-- The tokens are split off the text in as many steps as it has characters at
most, before whatever may follow and inside as many brackets as leave room for
those of the text. -/
structure Lexes (follows : Text → Prop) (height : Nat) (text : Text)
    (tokens : List Token) : Prop where
  clean : text.IsClean
  split : ∃ cost ≤ text.length, ∀ names steps depth rest,
    depth + height ≤ maxDepth → follows rest →
      takeTokens? names (cost + steps) depth (text ++ rest) =
        prepend tokens (takeTokens? names steps depth rest)

namespace Lexes

variable {follows before : Text → Prop} {height other : Nat}
variable {text first second : Text} {tokens later : List Token}

theorem weaken (lexes : Lexes follows height text tokens)
    (stronger : ∀ rest, before rest → follows rest)
    (deeper : height ≤ other) : Lexes before other text tokens := by
  obtain ⟨clean, cost, few, split⟩ := lexes
  refine ⟨clean, cost, few, fun names steps depth rest shallow isBefore => ?_⟩
  exact split names steps depth rest (by omega) (stronger rest isBefore)

theorem append (lexes : Lexes before height first tokens)
    (further : Lexes follows height second later)
    (joins : ∀ rest, follows rest → before (second ++ rest)) :
    Lexes follows height (first ++ second) (tokens ++ later) := by
  obtain ⟨clean, cost, few, split⟩ := lexes
  obtain ⟨alsoClean, more, alsoFew, goesOn⟩ := further
  refine ⟨Text.isClean_append.mpr ⟨clean, alsoClean⟩, cost + more, ?_, ?_⟩
  · rw [List.length_append]
    omega
  · intro names steps depth rest shallow isFollowed
    rw [Nat.add_assoc, List.append_assoc,
      split names (more + steps) depth _ shallow (joins rest isFollowed),
      goesOn names steps depth rest shallow isFollowed, prepend_prepend]

/-- Whatever follows marks and blanks. -/
theorem andThen (lexes : Lexes (fun _ => True) 0 first tokens)
    (further : Lexes follows height second later) :
    Lexes follows height (first ++ second) (tokens ++ later) := by
  have anywhere : Lexes (fun _ => True) height first tokens :=
    lexes.weaken (fun _ _ => trivial) (Nat.zero_le height)
  exact anywhere.append further fun _ _ => trivial

/-- A token alone. -/
theorem single {point : CodePoint} {others : Text} {token : Token}
    (clean : Text.IsClean (point :: others)) (isStart : IsStart point)
    (taken : ∀ names rest, follows rest →
      takeToken? names (point :: (others ++ rest)) = some (token, rest))
    (level : ∀ depth, token.depthAfter depth = depth) :
    Lexes follows 0 (point :: others) [token] := by
  refine ⟨clean, 1, by simp,
    fun names steps depth rest shallow isFollowed => ?_⟩
  have fits : token.depthAfter depth ≤ maxDepth := by
    rw [level]
    exact shallow
  rw [Nat.add_comm, List.cons_append,
    takeTokens?_token isStart (taken names rest isFollowed) fits, level]

theorem mark {mark : Char} {token : Token} (member : (mark, token) ∈ marks)
    (level : ∀ depth, token.depthAfter depth = depth) :
    Lexes (fun _ => True) 0 [CodePoint.ofChar mark] [token] := by
  have isMark := isMark_of_mem member
  exact .single isMark.clean isMark.isStart
    (fun names rest _ => isMark.takeToken?_eq names rest) level

/-- Blanks have no tokens. -/
theorem blank (count : Nat) :
    Lexes (fun _ => True) 0 (List.replicate count (CodePoint.ofChar ' '))
      [] := by
  refine ⟨fun point member => ?_, count, by simp, ?_⟩
  · rw [List.eq_of_mem_replicate member]
    decide
  · intro names steps depth rest _ _
    induction count with
    | zero => simp
    | succ count inductionHypothesis =>
        have isBlank : Literal.isBlank (CodePoint.ofChar ' ') = true := by
          decide
        rw [Nat.add_right_comm, List.replicate_succ, List.cons_append,
          takeTokens?_blank isBlank]
        exact inductionHypothesis

/-- Brackets around tokens. -/
theorem group {opens closes : Char} {bracket : Bracket}
    (lexes : Lexes follows height text tokens)
    (isOpen : (opens, .opening bracket) ∈ marks)
    (isClosed : (closes, .closing bracket) ∈ marks)
    (joins : ∀ rest, follows (CodePoint.ofChar closes :: rest)) :
    Lexes before (height + 1)
      (CodePoint.ofChar opens :: (text ++ [CodePoint.ofChar closes]))
      (.opening bracket :: (tokens ++ [.closing bracket])) := by
  have opening := isMark_of_mem isOpen
  have closing := isMark_of_mem isClosed
  obtain ⟨clean, cost, few, split⟩ := lexes
  refine ⟨?_, cost + 2, ?_, fun names steps depth rest shallow _ => ?_⟩
  · rw [← List.singleton_append]
    exact Text.isClean_append.mpr ⟨opening.clean,
      Text.isClean_append.mpr ⟨clean, closing.clean⟩⟩
  · simp only [List.length_cons, List.length_append, List.length_nil]
    omega
  · have inner : depth + 1 + height ≤ maxDepth := by omega
    have outer : depth ≤ maxDepth := by omega
    have deeper : (Token.opening bracket).depthAfter depth ≤ maxDepth := by
      show depth + 1 ≤ maxDepth
      omega
    have back : (Token.closing bracket).depthAfter (depth + 1) ≤ maxDepth :=
      outer
    have cost_eq : cost + 2 + steps = cost + (steps + 1) + 1 := by omega
    rw [cost_eq, List.cons_append, List.append_assoc, List.singleton_append,
      takeTokens?_token opening.isStart (opening.takeToken?_eq names _) deeper]
    show prepend _ (takeTokens? names (cost + (steps + 1)) (depth + 1) _) = _
    rw [split names (steps + 1) (depth + 1) _ inner (joins rest),
      takeTokens?_token closing.isStart (closing.takeToken?_eq names _) back]
    show prepend _ (prepend _
      (prepend _ (takeTokens? names steps depth rest))) = _
    rw [prepend_prepend, prepend_prepend]
    rfl

end Lexes

/-! ## Quotations -/

theorem takeToken?_text (content : Text) (names : CharacterNames)
    {rest : Text} (ends : Ends rest) :
    takeToken? names (Quoted.text content ++ rest) =
      some (.str content, rest) := by
  obtain ⟨quote, isMark, shown⟩ := Quoted.text_eq content
  have ended : ∀ point ∈ rest.head?, isQuote point = false :=
    fun point isNext => (ends point isNext).2.1
  have read := Quoted.takeQuoted?_text content names ended
  rw [shown, List.cons_append] at read ⊢
  have noMark : markToken? (CodePoint.ofChar quote) = none := by
    rcases isMark with rfl | rfl <;> decide
  have noNumeral : (CodePoint.ofChar quote).isDigit = false ∧
      (CodePoint.ofChar quote).isChar '.' = false := by
    rcases isMark with rfl | rfl <;> decide
  have isQuote : Literal.isQuote (CodePoint.ofChar quote) = true := by
    rcases isMark with rfl | rfl <;> decide
  simp only [takeToken?, noMark, noNumeral, isQuote, Bool.false_and,
    Bool.or_self, Bool.false_eq_true, if_false, if_true, read]

theorem lexes_text (content : Text) :
    Lexes Ends 0 (Quoted.text content) [.str content] := by
  have isClean := Quoted.isClean_text content
  have taken : ∀ names rest, Ends rest →
      takeToken? names (Quoted.text content ++ rest) =
        some (.str content, rest) :=
    fun names rest => takeToken?_text content names
  obtain ⟨quote, isMark, shown⟩ := Quoted.text_eq content
  rw [shown] at isClean taken ⊢
  refine .single isClean ?_ taken fun depth => rfl
  rcases isMark with rfl | rfl
  · exact ⟨by decide, by decide, by decide, by decide⟩
  · exact ⟨by decide, by decide, by decide, by decide⟩

/-! ## Parts of names -/

section Parts

variable {point : CodePoint} (isPart : isNamePart point = true)

include isPart

/-- A part of a name is no other character. -/
theorem isChar_of_isNamePart (other : Char)
    (notPart : isNamePart (CodePoint.ofChar other) = false) :
    point.isChar other = false := by
  apply beq_false_of_ne
  intro same
  have isOther : point = CodePoint.ofChar other := Fin.ext same
  rw [isOther, notPart] at isPart
  cases isPart

theorem isStart_of_isNamePart : IsStart point := by
  have apart := isChar_of_isNamePart isPart
  refine ⟨?_, apart '\n' (by decide), apart '#' (by decide),
    apart '\\' (by decide)⟩
  simp only [isBlank, apart ' ' (by decide), apart '\t' (by decide),
    apart '\x0c' (by decide), Bool.or_self]

theorem isClean_of_isNamePart : Text.IsClean [point] := by
  have notNull := isChar_of_isNamePart isPart (Char.ofNat 0) (by decide)
  have notReturn := isChar_of_isNamePart isPart '\r' (by decide)
  exact Text.isClean_singleton.mpr
    ⟨ne_of_beq_false notNull, ne_of_beq_false notReturn⟩

theorem markToken?_of_isNamePart : markToken? point = none := by
  have apart := isChar_of_isNamePart isPart
  simp only [markToken?, bracketToken?, apart ',' (by decide),
    apart ':' (by decide), apart '+' (by decide), apart '-' (by decide),
    apart '(' (by decide), apart ')' (by decide), apart '[' (by decide),
    apart ']' (by decide), apart '\x7b' (by decide),
    apart '\x7d' (by decide), Bool.false_eq_true, if_false]

/-- A token that begins with a part of a name is a numeral or a word. -/
theorem takeToken?_of_isNamePart (names : CharacterNames) (others : Text) :
    takeToken? names (point :: others) =
      if point.isDigit then takeNumeral? (point :: others)
      else takeWord? names (point :: others) := by
  have apart := isChar_of_isNamePart isPart
  simp only [takeToken?, markToken?_of_isNamePart isPart, isQuote,
    apart '.' (by decide), apart '"' (by decide), apart '\'' (by decide),
    Bool.false_and, Bool.or_false, Bool.or_self, Bool.false_eq_true,
    if_false]

end Parts

theorem isClean_of_areParts {text : Text}
    (areParts : ∀ point ∈ text, isNamePart point = true) : text.IsClean :=
  fun point member =>
    isClean_of_isNamePart (areParts point member) point List.mem_cons_self

/-! ## Names -/

theorem isDigit_of_isLetter {point : CodePoint}
    (isLetter : Literal.isLetter point = true) : point.isDigit = false := by
  simp only [Literal.isLetter, Bool.or_eq_true, Bool.and_eq_true,
    decide_eq_true_eq] at isLetter
  simp only [CodePoint.isDigit, Bool.and_eq_false_iff,
    decide_eq_false_iff_not]
  omega

/-- A name is taken up to the first character that is no part of one. -/
theorem takeWord?_ofString {word : String} {token : Token} {rest : Text}
    (areParts : ∀ point ∈ Text.ofString word, isNamePart point = true)
    (isToken : nameToken? (Text.ofString word) = some token)
    (names : CharacterNames) (ends : Ends rest) :
    takeWord? names (Text.ofString word ++ rest) = some (token, rest) := by
  have split : rest.takeWhile isNamePart = [] ∧
      rest.dropWhile isNamePart = rest ∧
        rest.head?.any Literal.isQuote = false := by
    cases rest with
    | nil => exact ⟨rfl, rfl, rfl⟩
    | cons next others =>
        obtain ⟨notPart, notQuote, _⟩ := ends_cons.mp ends
        simp [notPart, notQuote]
  unfold takeWord?
  rw [List.takeWhile_append_of_pos areParts, split.1, List.append_nil,
    List.dropWhile_append_of_pos areParts, split.2.1]
  simp only [Option.bind_eq_bind, Option.bind_some, split.2.2, isToken,
    Bool.false_eq_true, if_false]
  rfl

theorem lexes_word {word : String} {token : Token} (isWord : word ≠ "")
    (areLetters : word.toList.all fun letter =>
      isLetter (CodePoint.ofChar letter))
    (isToken : nameToken? (Text.ofString word) = some token)
    (level : ∀ depth, token.depthAfter depth = depth) :
    Lexes Ends 0 (Text.ofString word) [token] := by
  have inWord : ∀ point ∈ Text.ofString word, isLetter point = true := by
    intro point member
    obtain ⟨letter, inside, rfl⟩ := List.mem_map.mp member
    exact List.all_eq_true.mp areLetters letter inside
  have areParts : ∀ point ∈ Text.ofString word, isNamePart point = true :=
    fun point member => by simp [isNamePart, inWord point member]
  have isClean := isClean_of_areParts areParts
  have taken : ∀ names rest, Ends rest →
      takeWord? names (Text.ofString word ++ rest) = some (token, rest) :=
    fun names rest => takeWord?_ofString areParts isToken names
  have nonempty : Text.ofString word ≠ [] := by
    intro isNil
    exact isWord (String.toList_eq_nil_iff.mp (List.map_eq_nil_iff.mp isNil))
  obtain ⟨first, others, split⟩ := List.exists_cons_of_ne_nil nonempty
  rw [split] at isClean taken inWord areParts ⊢
  have isPart := areParts first List.mem_cons_self
  have noDigit := isDigit_of_isLetter (inWord first List.mem_cons_self)
  refine .single isClean (isStart_of_isNamePart isPart) ?_ level
  intro names rest ends
  rw [takeToken?_of_isNamePart isPart, noDigit]
  exact taken names rest ends

/-! ## Numerals -/

/-- The number that a decimal digit stands for. -/
def digitNumber (digit : Char) : Nat := digit.toNat - 0x30

theorem range_of_isDigit {digit : Char} (isDigit : digit.isDigit = true) :
    0x30 ≤ digit.toNat ∧ digit.toNat ≤ 0x39 := by
  simpa [Char.isDigit, UInt32.le_iff_toNat_le] using isDigit

theorem digitBelow?_octet {digit : Char} (isDigit : digit.isDigit = true) :
    Integer.digitBelow? 10 (octet (CodePoint.ofChar digit)) =
      some (digitNumber digit) := by
  have range := range_of_isDigit isDigit
  have isByte : octet (CodePoint.ofChar digit) =
      Integer.digitByte (digitNumber digit) := by
    have small : (CodePoint.ofChar digit).val < 0x80 := by
      show digit.toNat < 0x80
      omega
    have same : 0x30 + digitNumber digit = digit.toNat := by
      unfold digitNumber
      omega
    rw [octet, if_pos small, Integer.digitByte, same]
    rfl
  rw [isByte]
  refine Integer.digitBelow?_digitByte ?_
  unfold digitNumber
  omega

/-- What ends a name is no digit, no underscore and no letter. -/
theorem of_isNamePart_eq_false {point : CodePoint} (isEnd : isNamePart point = false) :
    isLetter point = false ∧ point.isDigit = false ∧
      point.isChar '_' = false ∧ point.val < 0x80 := by
  simpa [isNamePart, and_assoc] using isEnd

theorem toNat_octet {point : CodePoint} (small : point.val < 0x80) :
    (octet point).toNat = point.val := by
  rw [octet, if_pos small]
  exact UInt8.toNat_ofNat_of_lt' (by show point.val < 256; omega)

theorem ranges_of_notLetter {point : CodePoint}
    (notLetter : isLetter point = false) :
    ¬ (0x41 ≤ point.val ∧ point.val ≤ 0x5A) ∧
      ¬ (0x61 ≤ point.val ∧ point.val ≤ 0x7A) := by
  simpa [isLetter] using notLetter

theorem digitBelow?_of_notPart {point : CodePoint}
    (isEnd : isNamePart point = false) :
    Integer.digitBelow? 10 (octet point) = none := by
  obtain ⟨notLetter, notDigit, _, small⟩ := of_isNamePart_eq_false isEnd
  have value := toNat_octet small
  have digits : ¬ (0x30 ≤ point.val ∧ point.val ≤ 0x39) := by
    simpa [CodePoint.isDigit] using notDigit
  have letters := ranges_of_notLetter notLetter
  have noValue : Integer.digitValue? (octet point) = none := by
    simp only [Integer.digitValue?, UInt8.le_iff_toNat_le, value,
      UInt8.reduceToNat, digits, letters, if_false]
  rw [Integer.digitBelow?, noValue]
  rfl

/-- All digits are taken. -/
theorem takeDigits?_ofCharacters {digits : List Char} (nonempty : digits ≠ [])
    (areDigits : ∀ digit ∈ digits, digit.isDigit = true) {rest : Text}
    (ends : Ends rest) :
    takeDigits? 10 (Text.ofCharacters digits ++ rest) =
      some (digits.map digitNumber, rest) := by
  induction digits with
  | nil => exact absurd rfl nonempty
  | cons digit others inductionHypothesis =>
      obtain ⟨isDigit, areOthers⟩ := List.forall_mem_cons.mp areDigits
      have first := digitBelow?_octet isDigit
      cases others with
      | nil =>
          cases rest with
          | nil =>
              show takeDigits? 10 [CodePoint.ofChar digit] = _
              rw [takeDigits?, first]
              rfl
          | cons next after =>
              have isEnd := (ends_cons.mp ends).1
              have notDigit := digitBelow?_of_notPart isEnd
              have notJoined := (of_isNamePart_eq_false isEnd).2.2.1
              show takeDigits? 10 (CodePoint.ofChar digit :: next :: after) =
                _
              rw [takeDigits?, first]
              simp only [notJoined, notDigit, Bool.false_eq_true, if_false,
                Option.isSome_none]
              rfl
      | cons next others =>
          have isNext := areOthers next List.mem_cons_self
          have range := range_of_isDigit isNext
          have notJoined : (CodePoint.ofChar next).isChar '_' = false := by
            apply beq_false_of_ne
            show next.toNat ≠ 0x5F
            omega
          have later := inductionHypothesis (List.cons_ne_nil _ _) areOthers
          show takeDigits? 10 (CodePoint.ofChar digit ::
            CodePoint.ofChar next :: (Text.ofCharacters others ++ rest)) = _
          rw [takeDigits?, first]
          simp only [notJoined, digitBelow?_octet isNext, Bool.false_eq_true,
            if_false, Option.isSome_some, if_true]
          exact congrArg (Option.map _) later

theorem isDigit_of_mem {number : Nat} {digit : Char}
    (member : digit ∈ Nat.toDigits 10 number) : digit.isDigit = true :=
  Nat.isDigit_of_mem_toDigits (by decide) (by decide) member

/-- A number begins with a digit. -/
theorem exists_toDigits (number : Nat) :
    ∃ digit others, digit.isDigit = true ∧
      Nat.toDigits 10 number = digit :: others := by
  obtain ⟨digit, others, split⟩ := List.exists_cons_of_ne_nil
    (Nat.toDigits_ne_nil : Nat.toDigits 10 number ≠ [])
  exact ⟨digit, others, isDigit_of_mem (split ▸ List.mem_cons_self), split⟩

/-- Only zero begins with a zero. -/
theorem eq_zero_of_head? {number : Nat}
    (isZero : (Nat.toDigits 10 number).head? = some '0') : number = 0 := by
  induction number using Nat.strongRecOn with
  | ind number inductionHypothesis =>
      rw [Nat.toDigits_eq_if (by decide)] at isZero
      split at isZero
      · next small =>
          have onlyZero : ∀ digit < 10,
              Nat.digitChar digit = '0' → digit = 0 := by
            decide
          exact onlyZero number small (by simpa using isZero)
      · next large =>
          have nonempty : Nat.toDigits 10 (number / 10) ≠ [] :=
            Nat.toDigits_ne_nil
          rw [List.head?_append_of_ne_nil _ nonempty] at isZero
          have isSmall := inductionHypothesis (number / 10) (by omega) isZero
          omega

theorem ofDigits_toDigits (number : Nat) :
    Integer.ofDigits 10 ((Nat.toDigits 10 number).map digitNumber) =
      number := by
  unfold Integer.ofDigits
  rw [List.foldl_map]
  exact Dtype.foldl_toDigits number

theorem wholeNumber?_toDigits {number : Nat}
    (short : number < 10 ^ Integer.maxDecimalDigits) :
    wholeNumber? ((Nat.toDigits 10 number).map digitNumber) =
      some number := by
  have value := ofDigits_toDigits number
  have few : (Nat.toDigits 10 number).length ≤ Integer.maxDecimalDigits :=
    (Nat.length_toDigits_le_iff (by decide) (by decide)).mpr short
  have noneAhead : ((Nat.toDigits 10 number).map digitNumber).head? = some 0 →
      number = 0 := by
    intro isZero
    rw [List.head?_map, Option.map_eq_some_iff] at isZero
    obtain ⟨digit, isHead, noValue⟩ := isZero
    have range := range_of_isDigit
      (isDigit_of_mem (List.mem_of_mem_head? isHead))
    have isNought : digit = '0' := by
      apply Char.toNat_inj.mp
      show digit.toNat = 0x30
      unfold digitNumber at noValue
      omega
    exact eq_zero_of_head? (isNought ▸ isHead)
  unfold wholeNumber?
  by_cases isNought : number = 0
  · subst isNought
    decide
  · have notAll : ((Nat.toDigits 10 number).map digitNumber).all (· == 0) =
        false := by
      apply Bool.eq_false_iff.mpr
      intro allZero
      apply isNought
      apply noneAhead
      obtain ⟨first, others, _, split⟩ := exists_toDigits number
      rw [split] at allZero ⊢
      simp only [List.map_cons, List.all_cons, Bool.and_eq_true,
        beq_iff_eq] at allZero
      simp [allZero.1]
    have proper : ¬ (((Nat.toDigits 10 number).map digitNumber).head? =
        some 0 ∨ Integer.maxDecimalDigits <
          ((Nat.toDigits 10 number).map digitNumber).length) := by
      rw [List.length_map]
      rintro (isZero | long)
      · exact isNought (noneAhead isZero)
      · omega
    rw [notAll, if_neg Bool.false_ne_true, if_neg proper, value]

/-- The markers of other bases are letters. -/
theorem markedBase?_of_notLetter {point : CodePoint}
    (notLetter : isLetter point = false) : markedBase? point = none := by
  have ranges := ranges_of_notLetter notLetter
  have apart : ∀ letter : UInt8,
      0x41 ≤ letter.toNat ∧ letter.toNat ≤ 0x5A ∨
        0x61 ≤ letter.toNat ∧ letter.toNat ≤ 0x7A →
          octet point ≠ letter := by
    rintro letter isLetter rfl
    by_cases small : point.val < 0x80
    · have value := toNat_octet small
      omega
    · rw [octet, if_neg small] at isLetter
      revert isLetter
      decide
  simp only [markedBase?, Integer.markedBase?, apart 0x78 (by decide),
    apart 0x58 (by decide), apart 0x6F (by decide), apart 0x4F (by decide),
    apart 0x62 (by decide), apart 0x42 (by decide), or_self, if_false]

section Numbers

variable {number : Nat} (short : number < 10 ^ Integer.maxDecimalDigits)

theorem isDigit_ofChar {digit : Char} (isDigit : digit.isDigit = true) :
    (CodePoint.ofChar digit).isDigit = true := by
  have range := range_of_isDigit isDigit
  simp only [CodePoint.isDigit, Bool.and_eq_true, decide_eq_true_eq]
  exact range

include short

/-- Digits alone are a numeral without a fraction and without an exponent. -/
theorem takeDecimal?_toDigits {rest : Text} (ends : Ends rest) :
    takeDecimal? (Text.ofCharacters (Nat.toDigits 10 number) ++ rest) =
      some (.int number, rest) := by
  have taken := takeDigits?_ofCharacters Nat.toDigits_ne_nil
    (fun digit (member : digit ∈ Nat.toDigits 10 number) =>
      isDigit_of_mem member) ends
  have whole := wholeNumber?_toDigits short
  have optional : takeOptionalDigits?
      (Text.ofCharacters (Nat.toDigits 10 number) ++ rest) =
        some ((Nat.toDigits 10 number).map digitNumber, rest) := by
    obtain ⟨digit, others, isDigit, split⟩ :=
      exists_toDigits number
    rw [split] at taken ⊢
    exact (if_pos (isDigit_ofChar isDigit)).trans taken
  unfold takeDecimal?
  rw [optional]
  cases rest with
  | nil => simp [takeExponent?, whole]
  | cons next after =>
      obtain ⟨isEnd, _, notPoint⟩ := ends_cons.mp ends
      have notLetter := (of_isNamePart_eq_false isEnd).1
      have apart (letter : Char)
          (isLetter : Literal.isLetter (CodePoint.ofChar letter) = true) :
          next.isChar letter = false := by
        apply beq_false_of_ne
        intro same
        have isOther : next = CodePoint.ofChar letter := Fin.ext same
        rw [isOther, isLetter] at notLetter
        cases notLetter
      simp [takeExponent?, whole, notPoint, apart 'e' (by decide),
        apart 'E' (by decide), apart 'j' (by decide), apart 'J' (by decide)]

/-- No marker of another base follows a digit. -/
theorem takeNumeral?_toDigits {rest : Text} (ends : Ends rest) :
    takeNumeral? (Text.ofCharacters (Nat.toDigits 10 number) ++ rest) =
      some (.int number, rest) := by
  have taken := takeDecimal?_toDigits short ends
  have ended : rest.head?.any isNamePart = false := by
    cases rest with
    | nil => rfl
    | cons next after => exact (ends_cons.mp ends).1
  have unmarked : ∀ marker ∈
      (Text.ofCharacters (Nat.toDigits 10 number) ++ rest).tail.head?,
        markedBase? marker = none := by
    obtain ⟨digit, others, _, split⟩ := exists_toDigits number
    rw [split]
    intro marker isSecond
    apply markedBase?_of_notLetter
    cases others with
    | nil => exact (of_isNamePart_eq_false (ends marker isSecond).1).1
    | cons next later =>
        have isMember : next ∈ Nat.toDigits 10 number := by simp [split]
        have range := range_of_isDigit (isDigit_of_mem isMember)
        have isNext : CodePoint.ofChar next = marker := by
          simpa [Text.ofCharacters] using isSecond
        have value : marker.val = next.toNat := by
          rw [← isNext]
          rfl
        simp only [isLetter, Bool.or_eq_false_iff, Bool.and_eq_false_iff,
          decide_eq_false_iff_not]
        omega
  unfold takeNumeral?
  split
  · next zero marker after shape =>
      rw [shape] at unmarked taken
      have isDecimal := unmarked marker rfl
      rw [isDecimal]
      cases zero.isChar '0' <;> simp [shape, taken, ended]
  · simp [taken, ended]

theorem lexes_ofNat : Lexes Ends 0 (Text.ofNat number) [.int number] := by
  have shown : Text.ofNat number =
      Text.ofCharacters (Nat.toDigits 10 number) := by
    show (toString number).toList.map CodePoint.ofChar = _
    rw [Nat.toString_eq_repr, Nat.toList_repr]
    rfl
  have taken : ∀ rest, Ends rest →
      takeNumeral? (Text.ofCharacters (Nat.toDigits 10 number) ++ rest) =
        some (.int number, rest) :=
    fun rest => takeNumeral?_toDigits short
  have areParts : ∀ point ∈ Text.ofCharacters (Nat.toDigits 10 number),
      isNamePart point = true := by
    intro point member
    obtain ⟨digit, inside, rfl⟩ := List.mem_map.mp member
    have isPoint := isDigit_ofChar (isDigit_of_mem inside)
    simp [isNamePart, isPoint]
  have isClean := isClean_of_areParts areParts
  obtain ⟨digit, others, isDigit, split⟩ := exists_toDigits number
  rw [shown]
  rw [split] at isClean taken areParts ⊢
  have isPart := areParts (CodePoint.ofChar digit) List.mem_cons_self
  refine .single isClean (isStart_of_isNamePart isPart) ?_ fun depth => rfl
  intro names rest ends
  rw [takeToken?_of_isNamePart isPart, if_pos (isDigit_ofChar isDigit)]
  exact taken rest ends

end Numbers

end PickleGraph.Literal
