import Mathlib.Data.List.TakeWhile
import PickleGraph.Dtype.OfRecord
import PickleGraph.Proofs.Actions

/-!
# Codes of types

The code of a single element is read back: a letter with a length, whatever the
length is, and a kind of time with a multiple of a unit.
-/

namespace PickleGraph

open Actions

theorem CodePoint.toChar?_ofChar (character : Char) :
    (ofChar character).toChar? = some character := by
  have valid : (ofChar character).val.isValidChar := character.valid
  unfold toChar?
  rw [dif_pos valid]
  exact congrArg some (Char.toNat_inj.mp rfl)

/-- The text of some characters. -/
def Text.ofCharacters (characters : List Char) : Text :=
  characters.map CodePoint.ofChar

theorem Text.toString?_ofCharacters (characters : List Char) :
    Text.toString? (ofCharacters characters) =
      some (String.ofList characters) := by
  have spelled : (ofCharacters characters).mapM CodePoint.toChar? =
      some characters := by
    unfold ofCharacters
    induction characters with
    | nil => rfl
    | cons character rest inductionHypothesis =>
        rw [List.map_cons, List.mapM_cons, inductionHypothesis,
          CodePoint.toChar?_ofChar]
        rfl
  rw [toString?, spelled]
  rfl

theorem Text.ofInt_natCast (number : Nat) :
    Text.ofInt (number : Int) = ofCharacters (Nat.toDigits 10 number) := by
  show (toString number).toList.map CodePoint.ofChar = _
  rw [Nat.toString_eq_repr, Nat.toList_repr]
  rfl

namespace Dtype

/-! ## Decimal numbers -/

theorem ne_of_isAlpha {letter mark : Char} (isLetter : letter.isAlpha = true)
    (noLetter : mark.isAlpha = false) : letter ≠ mark := by
  intro same
  rw [same, noLetter] at isLetter
  cases isLetter

/-- A letter is no part of a number. -/
theorem noPart_of_isAlpha {letter : Char} (isLetter : letter.isAlpha = true) :
    letter.isDigit = false ∧ isSpace letter = false := by
  have isCased : letter.isUpper = true ∨ letter.isLower = true :=
    Bool.or_eq_true_iff.mp isLetter
  have range : 65 ≤ letter.toNat := by
    rcases isCased with isUpper | isLower
    · exact UInt32.le_iff_toNat_le.mp (of_decide_eq_true isUpper).1
    · have atLeast := (Bool.and_eq_true_iff.mp isLower).1
      have lower := UInt32.le_iff_toNat_le.mp (of_decide_eq_true atLeast)
      exact Nat.le_trans (by decide) lower
  refine ⟨?_, ?_⟩
  · have tooLarge : ¬ letter.toNat ≤ 57 := by omega
    simp [Char.isDigit, UInt32.le_iff_toNat_le]
    show 48 ≤ letter.toNat → 57 < letter.toNat
    omega
  · have noBlank : letter ≠ ' ' := ne_of_isAlpha isLetter rfl
    simp [isSpace, noBlank]
    omega

/-- No other part of a number is a digit. -/
theorem isSpace_of_isDigit {character : Char}
    (isDigit : character.isDigit = true) :
    isSpace character = false ∧ character ≠ '-' ∧ character ≠ '+' := by
  refine ⟨?_, fun isMinus => ?_, fun isPlus => ?_⟩
  have range : 48 ≤ character.toNat ∧ character.toNat ≤ 57 := by
    simpa [Char.isDigit, UInt32.le_iff_toNat_le] using isDigit
  have noBlank : character ≠ ' ' := by
    intro isBlank
    rw [isBlank] at isDigit
    cases isDigit
  · simp [isSpace, noBlank]
    omega
  · rw [isMinus] at isDigit
    cases isDigit
  · rw [isPlus] at isDigit
    cases isDigit

theorem foldl_toDigits (number : Nat) :
    (Nat.toDigits 10 number).foldl
      (fun number digit => number * 10 + (digit.toNat - 0x30)) 0 =
        number := by
  have counted := Nat.ofDigitChars_ten_toDigits (n := number)
  rw [Nat.ofDigitChars_eq_foldl] at counted
  simp only [Nat.mul_comm 10] at counted
  exact counted

/-- A number is taken up to the first character that is no digit. -/
theorem takeInteger?_toDigits (number : Nat) {rest : List Char}
    (ended : ∀ next ∈ rest.head?, next.isDigit = false) :
    takeInteger? (Nat.toDigits 10 number ++ rest) =
      some ((number : Int), rest) := by
  have digits : ∀ digit ∈ Nat.toDigits 10 number, digit.isDigit = true :=
    fun _ member =>
      Nat.isDigit_of_mem_toDigits (by decide) (by decide) member
  have restTaken : rest.takeWhile Char.isDigit = [] ∧
      rest.dropWhile Char.isDigit = rest := by
    cases rest with
    | nil => exact ⟨rfl, rfl⟩
    | cons next others =>
        have notDigit := ended next rfl
        rw [List.takeWhile_cons, List.dropWhile_cons, notDigit]
        exact ⟨rfl, rfl⟩
  have taken : (Nat.toDigits 10 number ++ rest).takeWhile Char.isDigit =
      Nat.toDigits 10 number := by
    rw [List.takeWhile_append_of_pos digits, restTaken.1, List.append_nil]
  have left : (Nat.toDigits 10 number ++ rest).dropWhile Char.isDigit =
      rest := by
    rw [List.dropWhile_append_of_pos digits, restTaken.2]
  have magnitude := foldl_toDigits number
  have nonempty : Nat.toDigits 10 number ≠ [] := Nat.toDigits_ne_nil
  generalize Nat.toDigits 10 number = characters at *
  cases characters with
  | nil => exact absurd rfl nonempty
  | cons first others =>
      obtain ⟨notSpace, notMinus, notPlus⟩ :=
        isSpace_of_isDigit (digits first List.mem_cons_self)
      have started : ((first :: others) ++ rest).dropWhile isSpace =
          (first :: others) ++ rest := by
        rw [List.cons_append, List.dropWhile_cons, notSpace]
        rfl
      unfold takeInteger?
      rw [started]
      split
      next negative unsigned parts =>
      split at parts
      · next isMinus =>
          exact absurd (List.cons.inj isMinus).1 notMinus
      · next isPlus =>
          exact absurd (List.cons.inj isPlus).1 notPlus
      · cases parts
        dsimp only
        rw [taken, left, magnitude]
        rfl

/-! ## Codes that are no lists -/

theorem hasComma_eq_false {code : List Char} (noComma : ',' ∉ code)
    (depth : Int) : isCodeList.hasComma depth code = false := by
  induction code generalizing depth with
  | nil => rfl
  | cons character rest inductionHypothesis =>
      rw [List.mem_cons, not_or] at noComma
      unfold isCodeList.hasComma
      split
      · next isEmpty => cases isEmpty
      · next isComma =>
          exact absurd (List.cons.inj isComma).1.symm noComma.1
      · next same =>
          cases same
          exact inductionHypothesis noComma.2 _
      · next same =>
          cases same
          exact inductionHypothesis noComma.2 _
      · next same =>
          cases same
          exact inductionHypothesis noComma.2 _

/-- A code that starts with a letter and has no commas stands for itself. -/
theorem ofText_ofCharacters {letter : Char} {rest : List Char}
    (isLetter : letter.isAlpha = true) (noComma : ',' ∉ rest) :
    ofText (Text.ofCharacters (letter :: rest)) =
      ofElementCode (letter :: rest) := by
  have other : ∀ mark : Char, mark.isAlpha = false → letter ≠ mark :=
    fun mark => ne_of_isAlpha isLetter
  have unmarked : isOrderMark letter = false := by
    simp [isOrderMark, other '<' rfl, other '>' rfl, other '=' rfl,
      other '|' rfl]
  have noDigit := (noPart_of_isAlpha isLetter).1
  have noOpening : (letter == '(') = false := beq_false_of_ne (other '(' rfl)
  have alone : isCodeList (letter :: rest) = false := by
    have noCommas : ',' ∉ letter :: rest := by
      simp [noComma, (other ',' rfl).symm]
    simp [isCodeList, unmarked, noDigit, noOpening,
      hasComma_eq_false noCommas]
  rw [ofText, Text.toString?_ofCharacters]
  dsimp only
  rw [String.toList_ofList, ofCharacters, alone]
  rfl

end Dtype

/-! ## Kinds and lengths -/

/-- The sizes that the elements of a kind can have. -/
def ElementKind.Admits (kind : ElementKind) (size : Nat) : Prop :=
  match kind with
  | boolean => size = 1
  | signed | unsigned => size ∈ [1, 2, 4, 8]
  | float => size ∈ [2, 4, 8, 16]
  | complex => size ∈ [8, 16, 32]
  | timedelta | datetime | object => size = 8
  | bytes | void => 0 < size ∧ (size : Int) ≤ Dtype.maxInt
  | text => ∃ length : Nat, 0 < length ∧
      (length : Int) ≤ Dtype.maxInt / 4 ∧ size = 4 * length
  | variableText => False

namespace Dtype

/-- The number of units in elements of a size: characters of four bytes each,
or bytes. -/
def lengthOf (kind : ElementKind) (size : Nat) : Nat :=
  if kind = .text then size / 4 else size

/-- A kind and its length, without an order and without a unit. -/
def plainCode (kind : ElementKind) (size : Nat) : Text :=
  Text.ofString kind.letter ++ Text.ofInt (lengthOf kind size)

theorem ofElementCode_length {letter : Char} {number : Nat}
    {kind : ElementKind} {size : Nat}
    (unmarked : isOrderMark letter = false)
    (noTime : ∀ rest, timeSuffix? (letter :: rest) = none)
    (small : (number : Int) ≤ maxInt)
    (known : ofSized? letter number = some (kind, size)) :
    ofElementCode (letter :: Nat.toDigits 10 number) =
      .ok (ofElement kind size false none) := by
  have taken : takeInteger? (Nat.toDigits 10 number) =
      some ((number : Int), []) :=
    List.append_nil (Nat.toDigits 10 number) ▸
      takeInteger?_toDigits number nofun
  have nonempty : Nat.toDigits 10 number ≠ [] := Nat.toDigits_ne_nil
  have inRange : ¬ ((number : Int) < 0 ∨ maxInt < number) := by omega
  have sized : sizedOf? (letter :: Nat.toDigits 10 number)
      (letter :: Nat.toDigits 10 number) = some (kind, size) := by
    unfold sizedOf?
    dsimp only
    split
    · next isEmpty => cases isEmpty
    · next alone => exact absurd (List.cons.inj alone).2 nonempty
    · next same =>
        cases same
        rw [taken]
        dsimp only
        rw [if_neg inRange, if_pos rfl, Int.toNat_natCast, known]
        rfl
  unfold ofElementCode
  dsimp only
  rw [unmarked, if_neg Bool.false_ne_true]
  dsimp only
  rw [noTime, sized]

theorem ofText_length (letter : Char) {number : Nat}
    {kind : ElementKind} {size : Nat}
    (isLetter : letter.isAlpha = true)
    (unmarked : isOrderMark letter = false)
    (noTime : ∀ rest, timeSuffix? (letter :: rest) = none)
    (small : (number : Int) ≤ maxInt)
    (known : ofSized? letter number = some (kind, size)) :
    ofText (Text.ofCharacters (letter :: Nat.toDigits 10 number)) =
      .ok (ofElement kind size false none) := by
  have noComma : ',' ∉ Nat.toDigits 10 number := by
    intro member
    have isDigit : (',').isDigit = true :=
      Nat.isDigit_of_mem_toDigits (by decide) (by decide) member
    cases isDigit
  rw [ofText_ofCharacters isLetter noComma]
  exact ofElementCode_length unmarked noTime small known

/-- The code of a kind and a length is the code of its elements. -/
theorem ofText_plainCode {kind : ElementKind} {size : Nat}
    (admits : kind.Admits size) :
    ofText (plainCode kind size) = .ok (.element kind size false none) := by
  cases kind with
  | bytes =>
      show ofText (_ ++ Text.ofInt (size : Int)) = _
      rw [Text.ofInt_natCast]
      exact ofText_length 'S' rfl rfl (fun _ => rfl) admits.2 rfl
  | void =>
      show ofText (_ ++ Text.ofInt (size : Int)) = _
      rw [Text.ofInt_natCast]
      exact ofText_length 'V' rfl rfl (fun _ => rfl) admits.2 rfl
  | text =>
      obtain ⟨length, _, small, rfl⟩ := admits
      have count : lengthOf .text (4 * length) = length :=
        Nat.mul_div_cancel_left length (by decide)
      have known : ofSized? 'U' length = some (.text, 4 * length) :=
        if_pos small
      have inRange : (length : Int) ≤ maxInt := by
        unfold maxInt at small ⊢
        omega
      unfold plainCode
      rw [count, Text.ofInt_natCast]
      exact ofText_length 'U' rfl rfl (fun _ => rfl) inRange known
  | variableText => exact admits.elim
  | boolean | timedelta | datetime | object =>
      cases admits
      rfl
  | signed | unsigned | float =>
      simp only [ElementKind.Admits, List.mem_cons, List.not_mem_nil,
        or_false] at admits
      rcases admits with rfl | rfl | rfl | rfl <;> rfl
  | complex =>
      simp only [ElementKind.Admits, List.mem_cons, List.not_mem_nil,
        or_false] at admits
      rcases admits with rfl | rfl | rfl <;> rfl

end Dtype

/-! ## Units of time -/

/-- A multiple of a unit that a type can have. -/
structure TimeUnit.IsValid (unit : TimeUnit) : Prop where
  positive : 0 < unit.count
  small : unit.count ≤ Dtype.maxInt
  isKnown : unit.name ∈ Dtype.unitNames

namespace Dtype

/-- The name of a unit is a word of letters that stands for the unit. -/
structure IsUnitName (name : String) : Prop where
  letters : ∀ letter ∈ name.toList, letter.isAlpha = true
  nonempty : name.toList ≠ []
  known : unitName? name = some name
  notGeneric : name ≠ genericUnit

theorem isUnitName_of_mem {name : String} (member : name ∈ unitNames) :
    IsUnitName name := by
  have each : ∀ name ∈ unitNames, name.toList.all Char.isAlpha = true ∧
      name.toList ≠ [] ∧ unitName? name = some name ∧
        name ≠ genericUnit := by
    decide
  obtain ⟨letters, nonempty, known, notGeneric⟩ := each name member
  exact ⟨List.all_eq_true.mp letters, nonempty, known, notGeneric⟩

/-- No number is taken in front of a letter. -/
theorem takeInteger?_of_isAlpha {letter : Char} {rest : List Char}
    (isLetter : letter.isAlpha = true) :
    takeInteger? (letter :: rest) = none := by
  obtain ⟨noDigit, noSpace⟩ := noPart_of_isAlpha isLetter
  have started : (letter :: rest).dropWhile isSpace = letter :: rest := by
    rw [List.dropWhile_cons, noSpace]
    rfl
  unfold takeInteger?
  rw [started]
  split
  next negative unsigned parts =>
  split at parts
  · next isMinus =>
      exact absurd (List.cons.inj isMinus).1 (ne_of_isAlpha isLetter rfl)
  · next isPlus =>
      exact absurd (List.cons.inj isPlus).1 (ne_of_isAlpha isLetter rfl)
  · cases parts
    rw [List.takeWhile_cons, noDigit]
    rfl

/-- A unit of time as it is written between brackets. -/
def unitBody (unit : TimeUnit) : List Char :=
  (if unit.count = 1 then [] else Nat.toDigits 10 unit.count.toNat) ++
    unit.name.toList

theorem mem_unitBody {unit : TimeUnit} (isValid : unit.IsValid)
    {character : Char} (member : character ∈ unitBody unit) :
    character.isAlphanum = true := by
  rcases List.mem_append.mp member with isCount | isName
  · split at isCount
    · cases isCount
    · have isDigit : character.isDigit = true :=
        Nat.isDigit_of_mem_toDigits (by decide) (by decide) isCount
      simp [Char.isAlphanum, isDigit]
  · have isLetter :=
      (isUnitName_of_mem isValid.isKnown).letters character isName
    simp [Char.isAlphanum, isLetter]

theorem unitBody_ne_nil {unit : TimeUnit} (isValid : unit.IsValid) :
    unitBody unit ≠ [] := by
  intro isEmpty
  exact (isUnitName_of_mem isValid.isKnown).nonempty
    (List.append_eq_nil_iff.mp isEmpty).2

theorem takeInteger?_unitBody {unit : TimeUnit} (isValid : unit.IsValid) :
    (takeInteger? (unitBody unit)).getD (1, unitBody unit) =
      (unit.count, unit.name.toList) := by
  have isName := isUnitName_of_mem isValid.isKnown
  obtain ⟨letter, rest, name⟩ := List.exists_cons_of_ne_nil isName.nonempty
  have isLetter : letter.isAlpha = true :=
    isName.letters letter (name ▸ List.mem_cons_self)
  unfold unitBody
  split
  · next isOne =>
      rw [List.nil_append, name, takeInteger?_of_isAlpha isLetter, isOne]
      rfl
  · have ended : ∀ next ∈ unit.name.toList.head?, next.isDigit = false := by
      rw [name]
      rintro next ⟨⟩
      exact (noPart_of_isAlpha isLetter).1
    have count : (unit.count.toNat : Int) = unit.count :=
      Int.toNat_of_nonneg (Int.le_of_lt isValid.positive)
    rw [takeInteger?_toDigits _ ended, count]
    rfl

theorem unitOfBody_unitBody {unit : TimeUnit} (isValid : unit.IsValid) :
    unitOfBody (unitBody unit) = .ok (some unit) := by
  have isName := isUnitName_of_mem isValid.isKnown
  have inRange : ¬ (unit.count < 0 ∨ maxInt < unit.count) := by
    have positive := isValid.positive
    have small := isValid.small
    omega
  have noSlash : ∀ letter ∈ unit.name.toList, (letter != '/') = true :=
    fun letter member =>
      bne_iff_ne.mpr (ne_of_isAlpha (isName.letters letter member) rfl)
  have whole : unit.name.toList.takeWhile (· != '/') = unit.name.toList :=
    List.takeWhile_eq_self_iff.mpr noSlash
  have nothing : unit.name.toList.dropWhile (· != '/') = [] :=
    List.dropWhile_eq_nil_iff.mpr noSlash
  unfold unitOfBody
  rw [takeInteger?_unitBody isValid]
  dsimp only
  rw [if_neg inRange, whole, nothing, String.ofList_toList, isName.known]
  exact congrArg Except.ok (dif_pos unit.isKnown)

theorem unitOfSuffix_unitBody {unit : TimeUnit} (isValid : unit.IsValid) :
    unitOfSuffix ('[' :: unitBody unit ++ [']']) = .ok (some unit) := by
  have noClosing : ∀ character ∈ unitBody unit,
      (character != ']') = true := by
    intro character member
    have isPart := mem_unitBody isValid member
    refine bne_iff_ne.mpr fun isClosing => ?_
    rw [isClosing] at isPart
    cases isPart
  have body : (unitBody unit ++ [']']).takeWhile (· != ']') =
      unitBody unit := by
    rw [List.takeWhile_append_of_pos noClosing]
    exact List.append_nil _
  have closing : (unitBody unit ++ [']']).dropWhile (· != ']') = [']'] := by
    rw [List.dropWhile_append_of_pos noClosing]
    rfl
  have nonempty : (unitBody unit).isEmpty = false :=
    List.isEmpty_eq_false_iff.mpr (unitBody_ne_nil isValid)
  show (if (unitBody unit ++ [']']).dropWhile (· != ']') = [']'] ∧
        !((unitBody unit ++ [']']).takeWhile (· != ']')).isEmpty then
      unitOfBody ((unitBody unit ++ [']']).takeWhile (· != ']'))
    else .error .wrongType) = _
  rw [body, closing, nonempty]
  exact unitOfBody_unitBody isValid

/-- The code of a kind of time with a unit in brackets. -/
theorem ofText_time {kind : ElementKind} {unit : TimeUnit}
    (isTime : kind = .timedelta ∨ kind = .datetime)
    (isValid : unit.IsValid) :
    ofText (List.flatten [Text.ofString kind.letter, Text.ofString "8",
        List.flatten [Text.ofString "[", Text.ofCharacters (unitBody unit),
          Text.ofString "]"]]) =
      .ok (.element kind 8 false (some unit)) := by
  have noComma : ',' ∉ '8' :: '[' :: unitBody unit ++ [']'] := by
    have notPart : ',' ∉ unitBody unit := fun member =>
      nomatch mem_unitBody isValid member
    simp [notPart]
  have read : ∀ letter : Char, letter.isAlpha = true →
      isOrderMark letter = false →
      (∀ rest, timeSuffix? (letter :: '8' :: rest) = some (kind, rest)) →
      ofText (Text.ofCharacters
          (letter :: ('8' :: '[' :: unitBody unit ++ [']']))) =
        .ok (.element kind 8 false (some unit)) := by
    intro letter isLetter unmarked starts
    rw [ofText_ofCharacters isLetter noComma]
    unfold ofElementCode
    dsimp only
    rw [unmarked, if_neg Bool.false_ne_true]
    dsimp only
    rw [List.cons_append, starts]
    dsimp only
    rw [unitOfSuffix_unitBody isValid]
    rfl
  have parts : ∀ letter : Char,
      List.flatten [Text.ofCharacters [letter], Text.ofString "8",
          List.flatten [Text.ofString "[",
            Text.ofCharacters (unitBody unit), Text.ofString "]"]] =
        Text.ofCharacters
          (letter :: ('8' :: '[' :: unitBody unit ++ [']'])) := by
    intro letter
    have brackets : Text.ofString "[" = Text.ofCharacters ['['] ∧
        Text.ofString "]" = Text.ofCharacters [']'] ∧
          Text.ofString "8" = Text.ofCharacters ['8'] := ⟨rfl, rfl, rfl⟩
    rw [brackets.1, brackets.2.1, brackets.2.2]
    simp [Text.ofCharacters]
  rcases isTime with rfl | rfl
  · exact (congrArg ofText (parts 'm')).trans
      (read 'm' rfl rfl fun _ => rfl)
  · exact (congrArg ofText (parts 'M')).trans
      (read 'M' rfl rfl fun _ => rfl)

end Dtype

end PickleGraph
