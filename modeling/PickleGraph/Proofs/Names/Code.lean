import Mathlib.Data.List.Basic
import Mathlib.Data.List.TakeDrop
import Mathlib.Data.List.TakeWhile
import PickleGraph.Dtype.Compound
import PickleGraph.Proofs.Actions

/-!
# Codes hold no descriptions of references

The description of a reference to a type starts with a mark of byte order, a
word that is no code, and a blank. A text with such a description in it is the
code of no type, alone or in a list of codes.
-/

namespace PickleGraph

open Actions

namespace CodePoint

theorem eq_ofChar {point : CodePoint} {character : Char}
    (isCharacter : point.toChar? = some character) :
    point = ofChar character := by
  unfold CodePoint.toChar? at isCharacter
  by_cases valid : point.val.isValidChar
  · rw [dif_pos valid] at isCharacter
    cases isCharacter
    exact Fin.ext rfl
  · rw [dif_neg valid] at isCharacter
    cases isCharacter

theorem ofChar_injective : Function.Injective ofChar := by
  intro first second same
  have numbers : first.toNat = second.toNat := Fin.mk.inj same
  exact Char.toNat_inj.mp numbers

end CodePoint

/-- The text holds the beginning of the description of a reference. -/
def Text.HoldsReference (text : Text) : Prop :=
  Text.ofString "<type " <:+: text

namespace Dtype

/-! ## The beginning of a description -/

/-- What stands in a description of a reference behind its first mark. -/
def referenceWord : List Char :=
  ['t', 'y', 'p', 'e', ' ']

/-- The characters hold the beginning of a description of a reference. -/
def HoldsReference (characters : List Char) : Prop :=
  '<' :: referenceWord <:+: characters

/-- The rest is left behind characters without the first mark. -/
def Leaves (input rest : List Char) : Prop :=
  ∃ taken, input = taken ++ rest ∧ '<' ∉ taken

theorem HoldsReference.mem {characters : List Char}
    (holds : HoldsReference characters) : '<' ∈ characters := by
  have member : '<' ∈ '<' :: referenceWord := List.mem_cons_self
  exact holds.subset member

theorem HoldsReference.of_cons {first : Char} {rest : List Char}
    (holds : HoldsReference (first :: rest)) :
    first = '<' ∧ referenceWord <+: rest ∨ HoldsReference rest := by
  rcases List.infix_cons_iff.mp holds with starts | later
  · have both := List.cons_prefix_cons.mp starts
    exact .inl ⟨both.1.symm, both.2⟩
  · exact .inr later

theorem HoldsReference.left {input rest : List Char}
    (holds : HoldsReference input) (leaves : Leaves input rest) :
    HoldsReference rest := by
  obtain ⟨taken, rfl, unmarked⟩ := leaves
  induction taken with
  | nil => exact holds
  | cons first others inductionHypothesis =>
      rw [List.mem_cons, not_or] at unmarked
      rcases HoldsReference.of_cons holds with ⟨isMark, _⟩ | later
      · exact absurd isMark.symm unmarked.1
      · exact inductionHypothesis unmarked.2 later

namespace Leaves

variable {input middle rest : List Char}

theorem refl (input : List Char) : Leaves input input :=
  ⟨[], rfl, List.not_mem_nil⟩

theorem trans (first : Leaves input middle) (second : Leaves middle rest) :
    Leaves input rest := by
  obtain ⟨taken, rfl, unmarked⟩ := first
  obtain ⟨others, rfl, alsoUnmarked⟩ := second
  refine ⟨taken ++ others, (List.append_assoc _ _ _).symm, ?_⟩
  rw [List.mem_append, not_or]
  exact ⟨unmarked, alsoUnmarked⟩

theorem cons {first : Char} (noMark : first ≠ '<') :
    Leaves (first :: rest) rest :=
  ⟨[first], rfl, by simpa using noMark.symm⟩

theorem dropWhile {accepts : Char → Bool} (refuses : accepts '<' = false)
    (input : List Char) : Leaves input (input.dropWhile accepts) := by
  refine ⟨_, List.takeWhile_append_dropWhile.symm, fun member => ?_⟩
  have accepted := List.mem_takeWhile_imp member
  rw [refuses] at accepted
  cases accepted

theorem span {accepts : Char → Bool} (refuses : accepts '<' = false)
    (input : List Char) : Leaves input (input.span accepts).2 := by
  rw [List.span_eq_takeWhile_dropWhile]
  exact dropWhile refuses input

theorem length_le (leaves : Leaves input rest) :
    rest.length ≤ input.length := by
  obtain ⟨taken, rfl, _⟩ := leaves
  simp

/-- The input has the first mark only if the rest has it. -/
theorem mem (leaves : Leaves input rest) (member : '<' ∈ input) :
    '<' ∈ rest := by
  obtain ⟨taken, rfl, unmarked⟩ := leaves
  exact (List.mem_append.mp member).resolve_left unmarked

end Leaves

/-! ## Codes of elements -/

theorem leaves_takeInteger {input rest : List Char} {number : Int}
    (taken : takeInteger? input = some (number, rest)) :
    Leaves input rest := by
  have behindSign : ∀ unsigned : List Char,
      Leaves (input.dropWhile isSpace) unsigned →
      Leaves input (unsigned.dropWhile Char.isDigit) :=
    fun unsigned signed => (Leaves.dropWhile rfl input).trans
      (signed.trans (.dropWhile rfl unsigned))
  unfold takeInteger? at taken
  generalize input.dropWhile isSpace = trimmed at taken behindSign
  split at taken
  · next negative unsigned signed =>
      have skips : Leaves trimmed unsigned := by
        split at signed
        · cases signed
          exact .cons (by decide)
        · cases signed
          exact .cons (by decide)
        · cases signed
          exact .refl _
      dsimp only at taken
      split at taken
      · cases taken
      · cases taken
        exact behindSign unsigned skips

theorem takeInteger?_word (more : List Char) :
    takeInteger? (referenceWord ++ more) = none ∧
      takeInteger? (referenceWord.tail ++ more) = none :=
  ⟨rfl, rfl⟩

theorem unmarked_of_unitName {name : List Char} {unit : String}
    (known : unitName? (String.ofList name) = some unit) :
    '<' ∉ name := by
  have names : ∀ known ∈ "μs" :: genericUnit :: unitNames,
      '<' ∉ known.toList := by
    decide
  have listed : String.ofList name ∈ "μs" :: genericUnit :: unitNames := by
    unfold unitName? at known
    split at known
    · next same => simp [same]
    · split at known
      · next same => simp [same]
      · have found := List.mem_of_find?_eq_some known
        have isUnit : (unit == String.ofList name) = true :=
          List.find?_some (p := (· == String.ofList name)) known
        rw [← beq_iff_eq.mp isUnit]
        exact List.mem_cons_of_mem _ (List.mem_cons_of_mem _ found)
  have unmarked := names _ listed
  rwa [String.toList_ofList] at unmarked

theorem unmarked_of_unitOfBody {body : List Char} {unit : Option TimeUnit}
    (success : unitOfBody body = .ok unit) : '<' ∉ body := by
  unfold unitOfBody at success
  have counted : Leaves body ((takeInteger? body).getD (1, body)).2 := by
    cases taken : takeInteger? body with
    | none => exact .refl body
    | some found => exact leaves_takeInteger taken
  revert success
  generalize (takeInteger? body).getD (1, body) = found at counted
  obtain ⟨count, afterCount⟩ := found
  intro success member
  dsimp only at counted success
  have behindCount : '<' ∈ afterCount := counted.mem member
  split at success
  · cases success
  · split at success
    · next unit known =>
        have named : Leaves afterCount
            (afterCount.dropWhile (· != '/')) :=
          ⟨_, List.takeWhile_append_dropWhile.symm,
            unmarked_of_unitName known⟩
        have behindName := named.mem behindCount
        have slash := List.head?_dropWhile_not (· != '/') afterCount
        split at success
        · next nothing =>
            rw [nothing] at behindName
            cases behindName
        · next first divisor more =>
            rw [more] at behindName slash
            have isSlash : first = '/' := by simpa using slash
            have inDivisor : '<' ∈ divisor := by
              simpa [isSlash] using behindName
            split at success
            · next number taken =>
                have behindNumber := (leaves_takeInteger taken).mem inDivisor
                cases behindNumber
            · cases success
    · cases success

/-- No unit of time is written with the mark. -/
theorem unmarked_of_unitOfSuffix {suffix : List Char}
    {unit : Option TimeUnit} (success : unitOfSuffix suffix = .ok unit) :
    '<' ∉ suffix := by
  unfold unitOfSuffix at success
  split at success
  · exact List.not_mem_nil
  · next rest =>
      dsimp only at success
      split at success
      · next closed =>
          have body := unmarked_of_unitOfBody success
          have parts : rest = rest.takeWhile (· != ']') ++ [']'] := by
            rw [← closed.1, List.takeWhile_append_dropWhile]
          rw [parts]
          simp [body]
      · cases success
  · cases success

/-- The code of a time has the mark at its end if at all, and no word. -/
theorem leaves_timeSuffix {code suffix : List Char} {kind : ElementKind}
    (found : timeSuffix? code = some (kind, suffix)) :
    Leaves code suffix ∧ ¬ referenceWord <+: code ∧
      ¬ referenceWord <+: code.tail := by
  obtain ⟨⟨start, known⟩, member, isStart⟩ :=
    List.exists_of_findSome?_eq_some found
  dsimp only at isStart
  split at isStart
  · next starts =>
      cases isStart
      obtain ⟨rest, rfl⟩ := List.isPrefixOf_iff_prefix.mp starts
      have dropped : (start.toList ++ rest).drop start.length = rest := by
        rw [← String.length_toList, List.drop_left]
      rw [dropped]
      have noWord : ∀ entry ∈ [("M8", ElementKind.datetime),
          ("m8", .timedelta), ("datetime64", .datetime),
          ("timedelta64", .timedelta)],
          '<' ∉ entry.1.toList ∧
            (∀ rest, ¬ referenceWord <+: entry.1.toList ++ rest) ∧
              ∀ rest, ¬ referenceWord <+: (entry.1.toList ++ rest).tail := by
        simp [referenceWord]
      obtain ⟨unmarked, first, second⟩ := noWord _ member
      exact ⟨⟨_, rfl, unmarked⟩, first rest, second rest⟩
  · cases isStart

theorem named_eq_none {whole : List Char}
    (foreign : '<' ∈ whole ∨ ' ' ∈ whole) :
    nameTable.lookup (String.ofList whole) = none := by
  have unmarked : ∀ entry ∈ nameTable,
      '<' ∉ entry.1.toList ∧ ' ' ∉ entry.1.toList := by
    decide
  rw [List.lookup_eq_none_iff]
  intro entry member
  have same : entry.1 ≠ String.ofList whole := by
    intro same
    have parts := unmarked entry member
    rw [same, String.toList_ofList] at parts
    rcases foreign with mark | blank
    · exact parts.1 mark
    · exact parts.2 blank
  simpa using same.symm

theorem ofSized?_mark (size : Nat) : ofSized? '<' size = none := by
  have absent : ∀ entry ∈ sizedTable, entry.1.1 ≠ '<' := by
    decide
  show sizedTable.lookup ('<', size) = none
  rw [List.lookup_eq_none_iff]
  intro entry member
  have different : entry.1 ≠ ('<', size) :=
    fun same => absent entry member (congrArg Prod.fst same)
  simpa using different.symm

theorem sizedOf?_eq_none {code whole : List Char}
    (foreign : '<' ∈ whole ∨ ' ' ∈ whole)
    (spoilt : '<' ∈ code ∨ referenceWord <+: code ∨
      referenceWord <+: code.tail) :
    sizedOf? code whole = none := by
  unfold sizedOf?
  rw [named_eq_none foreign]
  dsimp only
  split
  · rfl
  · next letter =>
      rcases spoilt with mark | starts | later
      · rw [← List.mem_singleton.mp mark]
        decide
      · have short := starts.length_le
        simp [referenceWord] at short
      · have short := later.length_le
        simp [referenceWord] at short
  · next letter rest _ =>
      have noNumber : ∀ {number after},
          takeInteger? rest = some (number, after) →
            ¬ referenceWord <+: letter :: rest ∧ ¬ referenceWord <+: rest := by
        intro number after taken
        constructor
        · rintro ⟨more, same⟩
          have tail : referenceWord.tail ++ more = rest :=
            (List.cons.inj same).2
          rw [← tail, (takeInteger?_word more).2] at taken
          cases taken
        · rintro ⟨more, rfl⟩
          rw [(takeInteger?_word more).1] at taken
          cases taken
      split
      · next number after taken =>
          split
          · rfl
          · split
            · next nothing =>
                subst nothing
                have noWord := noNumber taken
                have mark := spoilt.resolve_right
                  (not_or.mpr ⟨noWord.1, noWord.2⟩)
                rcases List.mem_cons.mp mark with isLetter | inside
                · rw [← isLetter, ofSized?_mark]
                  rfl
                · have outside := (leaves_takeInteger taken).mem inside
                  cases outside
            · rfl
      · rfl

/-- The code of an element is the code of a time or of a size, perhaps behind a
mark of byte order. -/
theorem ofElementCode_cases {whole : List Char} {type : Dtype}
    (success : ofElementCode whole = .ok type) :
    ∃ code, (code = whole ∨ code = whole.tail) ∧
      ((∃ kind suffix unit, timeSuffix? code = some (kind, suffix) ∧
          unitOfSuffix suffix = .ok unit) ∨
        ∃ sized, sizedOf? code whole = some sized) := by
  unfold ofElementCode at success
  split at success
  next bigEndian code taken =>
    have place : code = whole ∨ code = whole.tail := by
      cases whole with
      | nil =>
          cases taken
          exact .inl rfl
      | cons first rest =>
          by_cases isMark : isOrderMark first
          · simp only [isMark, if_true] at taken
            cases taken
            exact .inr rfl
          · simp only [isMark] at taken
            cases taken
            exact .inl rfl
    refine ⟨code, place, ?_⟩
    cases timed : timeSuffix? code with
    | some found =>
        simp only [timed] at success
        obtain ⟨unit, known, _⟩ := except_bind_eq_ok_iff.mp success
        exact .inl ⟨found.1, found.2, unit, rfl, known⟩
    | none =>
        simp only [timed] at success
        cases sized : sizedOf? code whole with
        | some found => exact .inr ⟨found, rfl⟩
        | none =>
            rw [sized] at success
            cases success

/-- Behind its first character the code of an element has neither the mark of a
description nor the word. -/
theorem ofElementCode_cons {first : Char} {rest : List Char} {type : Dtype}
    (success : ofElementCode (first :: rest) = .ok type) :
    '<' ∉ rest ∧ ¬ referenceWord <+: rest := by
  obtain ⟨code, place, known⟩ := ofElementCode_cases success
  rw [← not_or]
  intro spoilt
  have inCode : '<' ∈ code ∨ referenceWord <+: code ∨
      referenceWord <+: code.tail := by
    rcases place with rfl | rfl
    · exact spoilt.imp (List.mem_cons_of_mem _) .inr
    · exact spoilt.imp_right .inl
  rcases known with ⟨kind, suffix, unit, timed, known⟩ | ⟨sized, known⟩
  · obtain ⟨leaves, noStart, noLater⟩ := leaves_timeSuffix timed
    have mark := inCode.resolve_right (not_or.mpr ⟨noStart, noLater⟩)
    exact unmarked_of_unitOfSuffix known (leaves.mem mark)
  · have foreign : '<' ∈ first :: rest ∨ ' ' ∈ first :: rest := by
      refine spoilt.imp (List.mem_cons_of_mem _) fun starts => ?_
      have blank : ' ' ∈ referenceWord := by decide
      exact List.mem_cons_of_mem _ (starts.subset blank)
    rw [sizedOf?_eq_none foreign inCode] at known
    cases known

theorem not_holdsReference_of_element {whole : List Char} {type : Dtype}
    (success : ofElementCode whole = .ok type) : ¬ HoldsReference whole := by
  intro holds
  cases whole with
  | nil => cases holds.mem
  | cons first rest =>
      obtain ⟨unmarked, noWord⟩ := ofElementCode_cons success
      rcases holds.of_cons with ⟨_, starts⟩ | later
      · exact noWord starts
      · exact unmarked later.mem

/-! ## Lists of codes -/

theorem holds_takeOrder {input : List Char}
    (holds : HoldsReference input) :
    referenceWord <+: (takeOrder input).2 ∨
      HoldsReference (takeOrder input).2 := by
  cases input with
  | nil => exact .inr holds
  | cons mark rest =>
      unfold takeOrder
      dsimp only
      split
      · rcases holds.of_cons with ⟨_, starts⟩ | later
        · exact .inl starts
        · exact .inr later
      · exact .inr holds

theorem length_takeOrder_le (input : List Char) :
    (takeOrder input).2.length ≤ input.length := by
  cases input with
  | nil => exact Nat.le_refl _
  | cons mark rest =>
      unfold takeOrder
      dsimp only
      split
      · exact Nat.le_succ _
      · exact Nat.le_refl _

theorem takeOrder_of_word {input : List Char}
    (starts : referenceWord <+: input) : (takeOrder input).2 = input := by
  obtain ⟨rest, rfl⟩ := starts
  rfl

theorem leaves_optional {character : Char} (different : character ≠ '<')
    (input : List Char) :
    Leaves input (takeRepetition.optional character input).2 := by
  cases input with
  | nil => exact .refl []
  | cons first rest =>
      rw [takeRepetition.optional]
      by_cases same : first == character
      · rw [if_pos same]
        have isCharacter : first = character := beq_iff_eq.mp same
        exact .cons (isCharacter ▸ different)
      · rw [if_neg same]
        exact .refl _

theorem leaves_takeRepetition (input : List Char) :
    Leaves input (takeRepetition input).2 := by
  unfold takeRepetition
  exact (Leaves.span rfl input).trans
    ((leaves_optional (by decide) _).trans
      ((Leaves.span rfl _).trans
        ((leaves_optional (by decide) _).trans (.span rfl _))))

theorem takeRepetition_of_word {input : List Char}
    (starts : referenceWord <+: input) :
    (takeRepetition input).2 = input := by
  obtain ⟨rest, rfl⟩ := starts
  rfl

theorem leaves_takeCode (input : List Char) :
    Leaves input (takeCode input).2 := by
  have coded : Leaves input (input.span isCodePart).2 := .span rfl input
  unfold takeCode
  revert coded
  generalize input.span isCodePart = parts
  obtain ⟨code, rest⟩ := parts
  intro coded
  dsimp only at coded ⊢
  split
  · next inner =>
      have bodied : Leaves inner (inner.span fun character : Char =>
          character.isAlphanum || character == ',' || character == '.').2 :=
        .span rfl inner
      split
      · next after closed =>
          rw [closed] at bodied
          exact coded.trans ((Leaves.cons (by decide)).trans
            (bodied.trans (.cons (by decide))))
      · exact coded
  · exact coded

theorem takeCode_of_word {input : List Char}
    (starts : referenceWord <+: input) :
    (takeCode input).1 = referenceWord.dropLast := by
  obtain ⟨rest, rfl⟩ := starts
  rfl

/-- Unless the list ends, its next code starts behind a comma. -/
theorem leaves_takeSeparator {input rest : List Char} {separated : Bool}
    (success : takeSeparator input = .ok (separated, rest)) :
    Leaves input rest ∧ (rest = [] ∨ rest.length < input.length) := by
  have spaced : Leaves input (input.dropWhile isSpace) := .dropWhile rfl input
  unfold takeSeparator at success
  split at success
  · next nothing =>
      cases success
      rw [nothing] at spaced
      exact ⟨spaced, .inl rfl⟩
  · next more separator =>
      cases success
      have shorter := spaced.length_le
      rw [separator] at spaced shorter
      have trimmed : Leaves more (more.dropWhile isSpace) :=
        .dropWhile rfl more
      have least := trimmed.length_le
      refine ⟨(spaced.trans (.cons (by decide))).trans trimmed, .inr ?_⟩
      rw [List.length_cons] at shorter
      omega
  · cases success

/-- The next code of a list, with what stands before it and behind it. -/
theorem codeItems_cons {steps : Nat} {input : List Char}
    {items : List (List Char × Repetition)} {more : Bool}
    (nonempty : input ≠ [])
    (success : codeItems (steps + 1) input = .ok (items, more)) :
    ∃ separated rest marked repetition others further,
      let code := (takeOrder (takeRepetition (takeOrder input).2).2).2
      takeSeparator (takeCode code).2 = .ok (separated, rest) ∧
        codeItems steps rest = .ok (others, further) ∧
        items = (marked, repetition) :: others ∧
        (marked = (takeCode code).1 ∨ marked = '>' :: (takeCode code).1) := by
  rw [codeItems.eq_3 _ _ nonempty] at success
  obtain ⟨⟨separated, rest⟩, behind, success⟩ :=
    except_bind_eq_ok_iff.mp success
  obtain ⟨order, _, success⟩ := except_bind_eq_ok_iff.mp success
  obtain ⟨repetition, _, success⟩ := except_bind_eq_ok_iff.mp success
  obtain ⟨⟨others, further⟩, later, success⟩ :=
    except_bind_eq_ok_iff.mp success
  cases success
  refine ⟨separated, rest, _, repetition, others, further, behind, later,
    rfl, ?_⟩
  dsimp only
  split
  · exact .inr rfl
  · exact .inl rfl

/-- A description gives a list of codes an item that is no code. -/
theorem exists_item_of_codeItems {steps : Nat} {input : List Char}
    {items : List (List Char × Repetition)} {more : Bool}
    (enough : input.length ≤ steps) (holds : HoldsReference input)
    (success : codeItems steps input = .ok (items, more)) :
    ∃ item ∈ items, item.1 = referenceWord.dropLast ∨
      item.1 = '>' :: referenceWord.dropLast := by
  induction steps generalizing input items more with
  | zero =>
      rw [List.eq_nil_of_length_eq_zero (Nat.le_zero.mp enough)] at holds
      cases holds.mem
  | succ steps inductionHypothesis =>
      have nonempty : input ≠ [] := by
        rintro rfl
        cases holds.mem
      obtain ⟨separated, rest, marked, repetition, others, further, behind,
        later, rfl, isMarked⟩ := codeItems_cons nonempty success
      have repeated := leaves_takeRepetition (takeOrder input).2
      -- The word is the next code, or the description stands behind it.
      have either : referenceWord <+:
            (takeOrder (takeRepetition (takeOrder input).2).2).2 ∨
          HoldsReference
            (takeOrder (takeRepetition (takeOrder input).2).2).2 := by
        rcases holds_takeOrder holds with starts | still
        · rw [takeRepetition_of_word starts, takeOrder_of_word starts]
          exact .inl starts
        · exact holds_takeOrder (still.left repeated)
      rcases either with starts | still
      · have isWord := takeCode_of_word starts
        rw [isWord] at isMarked
        exact ⟨_, List.mem_cons_self, isMarked⟩
      · obtain ⟨separates, ends⟩ := leaves_takeSeparator behind
        have coded := leaves_takeCode
          (takeOrder (takeRepetition (takeOrder input).2).2).2
        have inRest := (still.left coded).left separates
        have shorter : rest.length ≤ steps := by
          have bounds := And.intro coded.length_le repeated.length_le
          have orders := And.intro (length_takeOrder_le input)
            (length_takeOrder_le (takeRepetition (takeOrder input).2).2)
          rcases ends with rfl | less
          · exact Nat.zero_le _
          · omega
        obtain ⟨item, member, isWord⟩ :=
          inductionHypothesis shorter inRest later
        exact ⟨item, List.mem_cons_of_mem _ member, isWord⟩

/-! ## Codes of types -/

theorem ofCharacters_word {depth : Nat} {code : List Char} {type : Dtype}
    (isWord : code = referenceWord.dropLast ∨
      code = '>' :: referenceWord.dropLast) :
    ofCharacters depth code ≠ .ok type := by
  cases depth with
  | zero => exact fun success => by cases success
  | succ depth =>
      rcases isWord with rfl | rfl
      · have failed : ofCharacters (depth + 1) referenceWord.dropLast =
            .error .wrongType := rfl
        rw [failed]
        exact fun success => by cases success
      · have failed : ofCharacters (depth + 1)
            ('>' :: referenceWord.dropLast) = .error .wrongType := rfl
        rw [failed]
        exact fun success => by cases success

theorem mem_dropEmptyLast {items : List (List Char × Repetition)}
    {item : List Char × Repetition} (member : item ∈ items)
    (nonempty : item.1 ≠ []) : item ∈ dropEmptyLast items := by
  unfold dropEmptyLast
  split
  · next last =>
      refine List.mem_dropLast_of_mem_of_ne_getLast? member fun same => ?_
      rw [last] at same
      cases same
      exact nonempty rfl
  · exact member

theorem not_holdsReference_of_characters {depth : Nat} {code : List Char}
    {type : Dtype} (success : ofCharacters depth code = .ok type) :
    ¬ HoldsReference code := by
  intro holds
  cases depth with
  | zero => cases success
  | succ depth =>
      rw [ofCharacters] at success
      split at success
      · obtain ⟨⟨items, separated⟩, listed, success⟩ :=
          except_bind_eq_ok_iff.mp success
        obtain ⟨item, member, isWord⟩ :=
          exists_item_of_codeItems (Nat.le_refl _) holds listed
        dsimp only at success
        split at success
        · have nonempty : item.1 ≠ [] := by
            rcases isWord with same | same
            · rw [same]
              decide
            · rw [same]
              decide
          have kept := mem_dropEmptyLast member nonempty
          split at success
          · cases success
          · obtain ⟨types, made, _⟩ := except_bind_eq_ok_iff.mp success
            obtain ⟨result, repeated⟩ := exists_of_mapM made kept
            obtain ⟨base, known, _⟩ := except_bind_eq_ok_iff.mp repeated
            exact ofCharacters_word isWord known
        · split at success
          · rw [List.mem_singleton.mp member] at isWord
            obtain ⟨base, known, _⟩ := except_bind_eq_ok_iff.mp success
            exact ofCharacters_word isWord known
          · cases success
      · exact not_holdsReference_of_element success holds

/-- The text of a type holds no description of a reference. -/
theorem not_holdsReference_of_text {text : Text} {type : Dtype}
    (success : ofText text = .ok type) :
    ¬ text.HoldsReference := by
  rintro ⟨before, after, parts⟩
  unfold ofText Text.toString? at success
  cases spelled : text.mapM CodePoint.toChar? with
  | none =>
      rw [spelled] at success
      cases success
  | some characters =>
      rw [spelled] at success
      have points := eq_map_of_mapM (fun _ _ => CodePoint.eq_ofChar) spelled
      have unmarked := not_holdsReference_of_characters success
      rw [String.toList_ofList] at unmarked
      rw [points] at parts
      obtain ⟨front, behind, rfl, first, _⟩ :=
        List.map_eq_append_iff.mp parts.symm
      obtain ⟨others, opening, rfl, _, second⟩ :=
        List.map_eq_append_iff.mp first
      have same : opening = '<' :: referenceWord :=
        CodePoint.ofChar_injective.list_map second
      exact unmarked ⟨others, behind, by rw [same]⟩

end Dtype

end PickleGraph
