import Mathlib.Data.Nat.Digits.Defs
import PickleGraph.Literal.Quoted
import PickleGraph.Proofs.Names.Code
import PickleGraph.Text.Quoted

/-!
# Quoted texts are read back

A text is quoted with a backslash before its quote and before backslashes, and
with escapes for what is not printable. The reader of literals finds the end of
the quotation, since no quote stands there without a backslash before it, and
resolves the escapes to the text.
-/

namespace PickleGraph

namespace Text

/-! ## Control characters -/

theorem printableRanges_high :
    printableRanges.toList.all fun range => 0x7F ≤ range.1 := by
  decide +kernel

/-- Control characters are not printable. -/
theorem isPrintable_control {point : CodePoint}
    (isControl : point.val < 0x20) : isPrintable point = false := by
  have below : (decide (0x20 ≤ point.val) && decide (point.val < 0x7F)) =
      false := by
    simp [isControl]
  unfold isPrintable
  rw [below, Bool.false_or, ← Array.any_toList]
  apply List.any_eq_false.mpr
  intro range member
  have high := of_decide_eq_true
    (List.all_eq_true.mp printableRanges_high range member)
  have outside : ¬range.1 ≤ point.val := by omega
  simp [outside]

/-! ## Clean texts -/

/-- Neither the null character nor a carriage return stands in the text. -/
def IsClean (text : Text) : Prop :=
  ∀ point ∈ text, point.val ≠ 0 ∧ point.val ≠ 0x0D

@[simp] theorem isClean_singleton {point : CodePoint} :
    IsClean [point] ↔ point.val ≠ 0 ∧ point.val ≠ 0x0D := by
  simp [IsClean]

@[simp] theorem isClean_append {first second : Text} :
    IsClean (first ++ second) ↔ IsClean first ∧ IsClean second :=
  List.forall_mem_append

end Text

/-! ## Hexadecimal digits -/

namespace Literal

/-- The octet of a digit in a text. -/
def digitOctet (digit : Char) : UInt8 := octet (CodePoint.ofChar digit)

theorem digitOctet_digitChar : ∀ digit < 16,
    Escape.isHexDigit (digitOctet (Nat.digitChar digit)) = true ∧
      Escape.hexValue (digitOctet (Nat.digitChar digit)) = digit := by
  decide

theorem hexNumber_append (digits : Bytes) (last : UInt8) :
    Escape.hexNumber (digits ++ [last]) =
      Escape.hexNumber digits * 16 + Escape.hexValue last := by
  simp [Escape.hexNumber]

theorem toDigits_hex (number : Nat) :
    (∀ digit ∈ Nat.toDigits 16 number,
        Escape.isHexDigit (digitOctet digit) = true) ∧
      Escape.hexNumber ((Nat.toDigits 16 number).map digitOctet) =
        number := by
  induction number using Nat.strongRecOn with
  | ind number inductionHypothesis =>
      rw [Nat.toDigits_eq_if (by decide)]
      split
      · next small =>
          obtain ⟨isDigit, value⟩ := digitOctet_digitChar number small
          simp [isDigit, value, Escape.hexNumber]
      · next large =>
          have smaller : number / 16 < number := by omega
          obtain ⟨areDigits, front⟩ := inductionHypothesis _ smaller
          obtain ⟨isDigit, last⟩ :=
            digitOctet_digitChar (number % 16) (by omega)
          constructor
          · intro digit member
            rcases List.mem_append.mp member with early | late
            · exact areDigits digit early
            · rw [List.mem_singleton.mp late]
              exact isDigit
          · rw [List.map_append, List.map_singleton, hexNumber_append, front,
              last]
            omega

theorem hexNumber_zeros (count : Nat) (digits : Bytes) :
    Escape.hexNumber (List.replicate count (digitOctet '0') ++ digits) =
      Escape.hexNumber digits := by
  induction count with
  | zero => rfl
  | succ count inductionHypothesis =>
      rw [List.replicate_succ, List.cons_append, ← inductionHypothesis]
      rfl

section Digits

variable {width number : Nat}

theorem isHexDigit_hexDigits {digit : Char}
    (member : digit ∈ Charset.hexDigits width number) :
    Escape.isHexDigit (digitOctet digit) = true := by
  rcases List.mem_append.mp member with isZero | isDigit
  · rw [List.eq_of_mem_replicate isZero]
    decide
  · exact (toDigits_hex number).1 digit isDigit

theorem hexNumber_hexDigits (width number : Nat) :
    Escape.hexNumber ((Charset.hexDigits width number).map digitOctet) =
      number := by
  simp only [Charset.hexDigits, List.map_append, List.map_replicate]
  rw [hexNumber_zeros]
  exact (toDigits_hex number).2

theorem length_hexDigits (wide : 0 < width) (fits : number < 16 ^ width) :
    (Charset.hexDigits width number).length = width := by
  have few : (Nat.toDigits 16 number).length ≤ width :=
    (Nat.length_toDigits_le_iff (by decide) wide).mpr fits
  simp only [Charset.hexDigits, List.length_append, List.length_replicate]
  omega

/-- The digits of an escape name its code point. -/
theorem takeHexPoint?_hexDigits (wide : 0 < width)
    (fits : number < 16 ^ width) (valid : number < 0x110000) (rest : Text) :
    takeHexPoint? width
        ((Charset.hexDigits width number).map CodePoint.ofChar ++ rest) =
      some ⟨number, valid⟩ := by
  have length : ((Charset.hexDigits width number).map
      CodePoint.ofChar).length = width := by
    rw [List.length_map]
    exact length_hexDigits wide fits
  have octets : (((Charset.hexDigits width number).map
      CodePoint.ofChar ++ rest).take width).map octet =
        (Charset.hexDigits width number).map digitOctet := by
    rw [List.take_left' length, List.map_map]
    rfl
  have areDigits : ((Charset.hexDigits width number).map digitOctet).all
      Escape.isHexDigit = true := by
    rw [List.all_map, List.all_eq_true]
    exact fun digit member => isHexDigit_hexDigits member
  unfold takeHexPoint?
  simp only [octets, List.length_map, length_hexDigits wide fits, areDigits,
    and_self, if_true, hexNumber_hexDigits, valid, dite_true]

end Digits

/-! ## Quotations -/

/-- A character between quotes that stands for itself. -/
structure IsPlain (quote : Char) (point : CodePoint) : Prop where
  notBackslash : point.isChar '\\' = false
  notQuote : point ≠ CodePoint.ofChar quote
  notNewline : isNewline point = false

/-- What stands between quotes: characters for themselves and characters that a
backslash protects. -/
inductive IsBody (quote : Char) : Text → Prop
  | nil : IsBody quote []
  | plain {point : CodePoint} {rest : Text} :
      IsPlain quote point → IsBody quote rest → IsBody quote (point :: rest)
  | pair {point next : CodePoint} {rest : Text} :
      point.isChar '\\' = true → IsBody quote rest →
        IsBody quote (point :: next :: rest)

variable {quote : Char}

theorem IsBody.append_plain {front rest : Text}
    (arePlain : ∀ point ∈ front, IsPlain quote point)
    (isBody : IsBody quote rest) : IsBody quote (front ++ rest) := by
  induction front with
  | nil => exact isBody
  | cons point others inductionHypothesis =>
      obtain ⟨isPlain, later⟩ := List.forall_mem_cons.mp arePlain
      exact .plain isPlain (inductionHypothesis later)

/-- The first quote after the body ends the quotation. -/
theorem takeBody?_of_isBody (notBackslash : quote ≠ '\\') {body : Text}
    (isBody : IsBody quote body) (rest : Text) :
    takeBody? [CodePoint.ofChar quote]
        (body ++ CodePoint.ofChar quote :: rest) =
      some (body, rest) := by
  induction isBody with
  | nil =>
      have noEscape : (CodePoint.ofChar quote).isChar '\\' = false := by
        apply beq_false_of_ne
        intro same
        exact notBackslash (Char.toNat_inj.mp same)
      cases rest with
      | nil => simp [takeBody?]
      | cons next others => simp [takeBody?, noEscape]
  | @plain point others isPlain _ inductionHypothesis =>
      obtain ⟨notBackslash, notQuote, notNewline⟩ := isPlain
      have nonempty : others ++ CodePoint.ofChar quote :: rest ≠ [] := by
        simp
      obtain ⟨next, after, split⟩ := List.exists_cons_of_ne_nil nonempty
      rw [List.cons_append, split, takeBody?, ← split, inductionHypothesis]
      simp [notBackslash, notNewline, Ne.symm notQuote]
  | @pair point next others isBackslash _ inductionHypothesis =>
      rw [List.cons_append, List.cons_append, takeBody?, if_pos isBackslash,
        inductionHypothesis]
      rfl

end Literal

namespace Quoted

open Literal

variable {quote : Char} {keep : CodePoint → Bool}

/-- The quotes of texts. -/
def IsMark (quote : Char) : Prop := quote = '\'' ∨ quote = '"'

theorem isMark_quoteFor (hasSingle hasDouble : Bool) :
    IsMark (quoteFor hasSingle hasDouble) := by
  unfold quoteFor
  split
  · exact .inr rfl
  · exact .inl rfl

/-- A character without an escape of its own is neither the quote nor one that
disturbs the line. -/
theorem shortEscape?_eq_none {code : Nat}
    (isNone : shortEscape? quote code = none) :
    code ≠ quote.toNat ∧ code ≠ 0x5C ∧ code ≠ 0x0A ∧ code ≠ 0x0D := by
  unfold shortEscape? at isNone
  split at isNone
  · cases isNone
  · next notProtected =>
      split at isNone
      · cases isNone
      · split at isNone
        · cases isNone
        · split at isNone
          · cases isNone
          · omega

theorem lookup_protected {code : Nat} (isMark : IsMark quote)
    (isProtected : code = quote.toNat ∨ code = 0x5C) :
    ∃ byte : UInt8,
      Escape.simpleEscapes.lookup (digitOctet (Char.ofNat code)) =
        some byte ∧ byte.toNat = code := by
  rcases isProtected with rfl | rfl
  · rcases isMark with rfl | rfl
    · exact ⟨0x27, by decide, by decide⟩
    · exact ⟨0x22, by decide, by decide⟩
  · exact ⟨0x5C, by decide, by decide⟩

/-- An escape of its own stands for the character. -/
theorem shortEscape?_eq_some {code : Nat} {escaped : List Char}
    (isMark : IsMark quote)
    (isSome : shortEscape? quote code = some escaped) :
    ∃ (selector : Char) (byte : UInt8), escaped = ['\\', selector] ∧
      Escape.simpleEscapes.lookup (digitOctet selector) = some byte ∧
        byte.toNat = code := by
  unfold shortEscape? at isSome
  split at isSome
  · next isProtected =>
      obtain ⟨byte, found, value⟩ := lookup_protected isMark isProtected
      exact ⟨_, byte, (Option.some.inj isSome).symm, found, value⟩
  · split at isSome
    · next isTab =>
        exact ⟨'t', 0x09, (Option.some.inj isSome).symm, by decide,
          isTab.symm⟩
    · split at isSome
      · next isFeed =>
          exact ⟨'n', 0x0A, (Option.some.inj isSome).symm, by decide,
            isFeed.symm⟩
      · split at isSome
        · next isReturn =>
            exact ⟨'r', 0x0D, (Option.some.inj isSome).symm, by decide,
              isReturn.symm⟩
        · cases isSome

/-- How a character is written between quotes: with an escape of its own, as it
is, or with its number in hexadecimal digits. -/
inductive Spells (quote : Char) (point : CodePoint) : Text → Prop
  | short {selector : Char} {byte : UInt8} :
      Escape.simpleEscapes.lookup (digitOctet selector) = some byte →
        byte.toNat = point.val →
          Spells quote point
            [CodePoint.ofChar '\\', CodePoint.ofChar selector]
  | plain : IsPlain quote point → point.val ≠ 0 → point.val ≠ 0x0D →
      Spells quote point [point]
  | long {selector : Char} {width : Nat} :
      Escape.simpleEscapes.lookup (digitOctet selector) = none →
        hexWidth? (CodePoint.ofChar selector) = some width →
          0 < width → point.val < 16 ^ width →
            Spells quote point
              (CodePoint.ofChar '\\' :: CodePoint.ofChar selector ::
                (Charset.hexDigits width point.val).map CodePoint.ofChar)

theorem spells_backslashPoint (point : CodePoint) :
    Spells quote point
      ((Charset.backslashPoint point).map CodePoint.ofChar) := by
  have valid := point.isLt
  unfold Charset.backslashPoint
  split
  · next small =>
      exact .long (by decide) (by decide) (by decide) small
  · split
    · next medium =>
        exact .long (by decide) (by decide) (by decide) medium
    · have large : point.val < 16 ^ 8 := by omega
      exact .long (by decide) (by decide) (by decide) large

theorem spells_pointBody (isMark : IsMark quote) (noNull : keep 0 = false)
    (point : CodePoint) :
    Spells quote point (pointBody keep quote point) := by
  unfold pointBody
  split
  · next escaped isSome =>
      obtain ⟨selector, byte, rfl, found, value⟩ :=
        shortEscape?_eq_some isMark isSome
      exact .short found value
  · next isNone =>
      obtain ⟨notQuote, notBackslash, notFeed, notReturn⟩ :=
        shortEscape?_eq_none isNone
      split
      · next isKept =>
          have notNull : point.val ≠ 0 := by
            intro isNull
            rw [show point = 0 from Fin.ext isNull, noNull] at isKept
            cases isKept
          refine .plain ⟨beq_false_of_ne notBackslash, ?_,
            beq_false_of_ne notFeed⟩ notNull notReturn
          intro isQuote
          exact notQuote (congrArg Fin.val isQuote)
      · exact spells_backslashPoint point

/-! ## Characters read back -/

theorem IsMark.ne_backslash (isMark : IsMark quote) : quote ≠ '\\' := by
  rcases isMark with rfl | rfl <;> decide

/-- A hexadecimal digit stands for itself between quotes. -/
theorem isPlain_digit (isMark : IsMark quote) {digit : Char}
    (isDigit : Escape.isHexDigit (digitOctet digit) = true) :
    IsPlain quote (CodePoint.ofChar digit) := by
  have apart : ∀ other : Char,
      Escape.isHexDigit (digitOctet other) = false → digit ≠ other := by
    intro other notDigit same
    rw [same, notDigit] at isDigit
    cases isDigit
  have notBackslash := apart '\\' (by decide)
  have notFeed := apart '\n' (by decide)
  have notQuote : digit ≠ quote := by
    rcases isMark with rfl | rfl
    · exact apart '\'' (by decide)
    · exact apart '"' (by decide)
  refine ⟨beq_false_of_ne ?_, ?_, beq_false_of_ne ?_⟩
  · exact fun same => notBackslash (Char.toNat_inj.mp same)
  · exact fun same => notQuote (CodePoint.ofChar_injective same)
  · exact fun same => notFeed (Char.toNat_inj.mp same)

variable {point : CodePoint} {spelled : Text}

theorem Spells.isBody (spells : Spells quote point spelled)
    (isMark : IsMark quote) {rest : Text} (isBody : IsBody quote rest) :
    IsBody quote (spelled ++ rest) := by
  cases spells with
  | short _ _ => exact .pair rfl isBody
  | plain isPlain _ _ => exact .plain isPlain isBody
  | long _ _ _ _ =>
      refine .pair rfl (.append_plain ?_ isBody)
      intro digit member
      obtain ⟨character, isDigit, rfl⟩ := List.mem_map.mp member
      exact isPlain_digit isMark (isHexDigit_hexDigits isDigit)

theorem Spells.unescape?_eq (spells : Spells quote point spelled)
    (names : CharacterNames) (rest : Text) :
    unescape? names (spelled ++ rest) =
      (unescape? names rest).map (point :: ·) := by
  have isBackslash : (CodePoint.ofChar '\\').isChar '\\' = true := by
    decide
  cases spells with
  | @short selector byte found value =>
      have isPoint : CodePoint.ofByte byte = point := Fin.ext value
      have known : Escape.simpleEscapes.lookup
          (octet (CodePoint.ofChar selector)) = some byte := found
      rw [List.cons_append, List.cons_append, unescape?.eq_def]
      simp only [isBackslash, Bool.not_true, Bool.false_eq_true, if_false,
        known, isPoint, List.nil_append]
  | plain isPlain _ _ =>
      rw [List.cons_append, unescape?.eq_def]
      simp [isPlain.notBackslash]
  | @long selector width unknown counted wide fits =>
      have notKnown : Escape.simpleEscapes.lookup
          (octet (CodePoint.ofChar selector)) = none := unknown
      have length : ((Charset.hexDigits width point.val).map
          CodePoint.ofChar).length = width := by
        rw [List.length_map]
        exact length_hexDigits wide fits
      have named := takeHexPoint?_hexDigits wide fits point.isLt rest
      rw [List.cons_append, List.cons_append, unescape?.eq_def]
      simp only [isBackslash, Bool.not_true, Bool.false_eq_true, if_false,
        notKnown, counted, named, List.drop_left' length]
      cases unescape? names rest with
      | none => rfl
      | some text => rfl

theorem Spells.isClean (spells : Spells quote point spelled) :
    Text.IsClean spelled := by
  have backslash : Text.IsClean [CodePoint.ofChar '\\'] :=
    Text.isClean_singleton.mpr (by decide)
  -- what an escape cannot stand for is neither null nor an end of line
  have clean : ∀ selector : Char, selector ≠ Char.ofNat 0 →
      selector ≠ '\r' → Text.IsClean [CodePoint.ofChar selector] := by
    intro selector notNull notReturn
    rw [Text.isClean_singleton]
    constructor
    · exact fun isNull => notNull (Char.toNat_inj.mp isNull)
    · exact fun isReturn => notReturn (Char.toNat_inj.mp isReturn)
  cases spells with
  | @short selector byte found _ =>
      have nullUnknown : Escape.simpleEscapes.lookup
          (digitOctet (Char.ofNat 0)) = none := by
        decide
      have returnUnknown : Escape.simpleEscapes.lookup
          (digitOctet '\r') = none := by
        decide
      have isClean := clean selector
        (fun isNull => by simp [isNull, nullUnknown] at found)
        (fun isReturn => by simp [isReturn, returnUnknown] at found)
      exact Text.isClean_append.mpr ⟨backslash, isClean⟩
  | plain _ notNull notReturn =>
      exact Text.isClean_singleton.mpr ⟨notNull, notReturn⟩
  | @long selector width _ counted _ _ =>
      have nullUnknown : hexWidth? (CodePoint.ofChar (Char.ofNat 0)) =
          none := by
        decide
      have returnUnknown : hexWidth? (CodePoint.ofChar '\r') = none := by
        decide
      have isClean := clean selector
        (fun isNull => by simp [isNull, nullUnknown] at counted)
        (fun isReturn => by simp [isReturn, returnUnknown] at counted)
      have digits : Text.IsClean
          ((Charset.hexDigits width point.val).map CodePoint.ofChar) := by
        intro digit member
        obtain ⟨character, isDigit, rfl⟩ := List.mem_map.mp member
        have isHex := isHexDigit_hexDigits isDigit
        refine clean character ?_ ?_ _ List.mem_cons_self
        · rintro rfl
          revert isHex
          decide
        · rintro rfl
          revert isHex
          decide
      exact Text.isClean_append.mpr
        ⟨backslash, Text.isClean_append.mpr ⟨isClean, digits⟩⟩

/-- A quotation does not begin with a second quote. -/
theorem Spells.head_ne (spells : Spells quote point spelled)
    (isMark : IsMark quote) (rest : Text) :
    ∃ first others, spelled ++ rest = first :: others ∧
      first ≠ CodePoint.ofChar quote := by
  have notQuote : CodePoint.ofChar '\\' ≠ CodePoint.ofChar quote :=
    fun same => isMark.ne_backslash (CodePoint.ofChar_injective same).symm
  cases spells with
  | short _ _ => exact ⟨_, _, rfl, notQuote⟩
  | plain isPlain _ _ => exact ⟨_, _, rfl, isPlain.notQuote⟩
  | long _ _ _ _ => exact ⟨_, _, rfl, notQuote⟩

/-! ## Texts read back -/

section Texts

variable (isMark : IsMark quote) (noNull : keep 0 = false) (content : Text)

include isMark noNull

theorem isBody_flatMap : IsBody quote (content.flatMap (pointBody keep quote)) := by
  induction content with
  | nil => exact .nil
  | cons point rest inductionHypothesis =>
      rw [List.flatMap_cons]
      exact (spells_pointBody isMark noNull point).isBody isMark
        inductionHypothesis

theorem unescape?_flatMap (names : CharacterNames) :
    unescape? names (content.flatMap (pointBody keep quote)) =
      some content := by
  induction content with
  | nil => rw [List.flatMap_nil, unescape?]
  | cons point rest inductionHypothesis =>
      rw [List.flatMap_cons,
        (spells_pointBody isMark noNull point).unescape?_eq,
        inductionHypothesis]
      rfl

theorem isClean_flatMap :
    Text.IsClean (content.flatMap (pointBody keep quote)) := by
  intro point member
  obtain ⟨source, _, inside⟩ := List.mem_flatMap.mp member
  exact (spells_pointBody isMark noNull source).isClean point inside

/-- A quotation is taken off the front of what does not go on with a quote. -/
theorem takeQuoted?_eq (names : CharacterNames) {rest : Text}
    (ended : ∀ point ∈ rest.head?, isQuote point = false) :
    takeQuoted? names ⟨false, false⟩
        (CodePoint.ofChar quote ::
          (content.flatMap (pointBody keep quote) ++
            CodePoint.ofChar quote :: rest)) =
      some (.str content, rest) := by
  have body := takeBody?_of_isBody isMark.ne_backslash
    (isBody_flatMap isMark noNull content) rest
  have single : (List.replicate 3 (CodePoint.ofChar quote)).isPrefixOf
      (CodePoint.ofChar quote ::
        (content.flatMap (pointBody keep quote) ++
          CodePoint.ofChar quote :: rest)) = false := by
    cases content with
    | nil =>
        cases rest with
        | nil => simp [List.replicate]
        | cons next others =>
            have notQuote := ended next rfl
            have apart : CodePoint.ofChar quote ≠ next := by
              rintro rfl
              revert notQuote
              rcases isMark with rfl | rfl <;> decide
            simp [List.replicate, List.isPrefixOf, apart]
    | cons point others =>
        obtain ⟨first, later, split, notQuote⟩ :=
          (spells_pointBody isMark noNull point).head_ne isMark
            (others.flatMap (pointBody keep quote) ++
              CodePoint.ofChar quote :: rest)
        rw [List.flatMap_cons, List.append_assoc, split]
        simp [List.replicate, List.isPrefixOf, Ne.symm notQuote]
  unfold takeQuoted?
  simp only [List.head?_cons, Option.bind_eq_bind, Option.bind_some, single,
    Bool.false_eq_true, if_false, List.length_singleton, List.drop_succ_cons,
    List.drop_zero, body]
  rw [quotedToken?, unescape?_flatMap isMark noNull content names]
  rfl

end Texts

/-! ## Whole quotations -/

theorem isPrintable_null : Text.isPrintable 0 = false :=
  Text.isPrintable_control (by decide)

theorem text_eq (content : Text) :
    ∃ quote, IsMark quote ∧
      text content = CodePoint.ofChar quote ::
        (content.flatMap (pointBody Text.isPrintable quote) ++
          [CodePoint.ofChar quote]) :=
  ⟨_, isMark_quoteFor _ _, by simp only [text, textKeeping]; rfl⟩

theorem isClean_text (content : Text) : (text content).IsClean := by
  obtain ⟨quote, isMark, shown⟩ := text_eq content
  have mark : Text.IsClean [CodePoint.ofChar quote] := by
    rcases isMark with rfl | rfl
    · exact Text.isClean_singleton.mpr (by decide)
    · exact Text.isClean_singleton.mpr (by decide)
  have inside := isClean_flatMap isMark isPrintable_null content
  rw [shown, ← List.singleton_append]
  exact Text.isClean_append.mpr ⟨mark, Text.isClean_append.mpr ⟨inside, mark⟩⟩

/-- Reading the quotation of a text gives the text, whatever follows that is no
quote. -/
theorem takeQuoted?_text (content : Text) (names : CharacterNames)
    {rest : Text}
    (ended : ∀ point ∈ rest.head?, isQuote point = false) :
    takeQuoted? names ⟨false, false⟩ (text content ++ rest) =
      some (.str content, rest) := by
  obtain ⟨quote, isMark, shown⟩ := text_eq content
  have read := takeQuoted?_eq isMark
    isPrintable_null content names ended
  rw [shown, List.cons_append, List.append_assoc]
  exact read

end Quoted

end PickleGraph
