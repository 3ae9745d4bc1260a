import Mathlib.Data.List.TakeWhile
import PickleGraph.Text.Escape

/-!
# Escaped texts are resolved to the text that was escaped

Text in a line is written with the four characters that could end or disturb the
line escaped, the backslash as well, and with long escapes for what has no
octet.
-/

namespace PickleGraph.Escape

/-! ## Hexadecimal numerals -/

/-- The digit for a number below sixteen, in lower case. -/
def hexDigit (number : Nat) : UInt8 :=
  UInt8.ofNat (if number < 10 then 0x30 + number else 0x57 + number)

/-- The last `width` digits of a number, the most significant first. -/
def hexDigits : (width : Nat) → Nat → Bytes
  | 0, _ => []
  | width + 1, number =>
      hexDigits width (number / 16) ++ [hexDigit (number % 16)]

theorem hexDigit_lt {number : Nat} (bound : number < 16) :
    (if number < 10 then 0x30 + number else 0x57 + number) < 256 := by
  split <;> omega

theorem toNat_hexDigit {number : Nat} (bound : number < 16) :
    (hexDigit number).toNat =
      if number < 10 then 0x30 + number else 0x57 + number :=
  UInt8.toNat_ofNat_of_lt' (hexDigit_lt bound)

theorem isHexDigit_hexDigit {number : Nat} (bound : number < 16) :
    isHexDigit (hexDigit number) = true := by
  have value := toNat_hexDigit bound
  simp only [isHexDigit, UInt8.le_iff_toNat_le, value]
  simp
  grind

theorem hexValue_hexDigit {number : Nat} (bound : number < 16) :
    hexValue (hexDigit number) = number := by
  have value := toNat_hexDigit bound
  simp only [hexValue, UInt8.le_iff_toNat_le, value]
  simp
  grind

@[simp] theorem length_hexDigits (width number : Nat) :
    (hexDigits width number).length = width := by
  induction width generalizing number with
  | zero => rfl
  | succ width inductionHypothesis =>
      rw [hexDigits, List.length_append, inductionHypothesis]
      rfl

theorem isHexDigit_of_mem_hexDigits
    {width number : Nat} {digit : UInt8}
    (member : digit ∈ hexDigits width number) :
    isHexDigit digit = true := by
  induction width generalizing number with
  | zero => cases member
  | succ width inductionHypothesis =>
      rcases List.mem_append.mp member with early | last
      · exact inductionHypothesis early
      · rw [List.mem_singleton.mp last]
        exact isHexDigit_hexDigit (Nat.mod_lt number (by decide))

theorem hexNumber_hexDigits
    {width number : Nat} (bound : number < 16 ^ width) :
    hexNumber (hexDigits width number) = number := by
  induction width generalizing number with
  | zero =>
      rw [Nat.pow_zero] at bound
      show 0 = number
      omega
  | succ width inductionHypothesis =>
      have quotientBound : number / 16 < 16 ^ width := by
        rw [Nat.pow_succ] at bound
        omega
      have quotient := inductionHypothesis quotientBound
      have digit := hexValue_hexDigit (Nat.mod_lt number (by decide : 16 > 0))
      unfold hexNumber at quotient ⊢
      rw [hexDigits, List.foldl_append, quotient, List.foldl_cons,
        List.foldl_nil, digit]
      omega

/-! ## Escaping -/

/-- The characters that are escaped although they have an octet: the backslash,
the null character, both line ends and the end-of-file character. -/
def disturbing : List Nat :=
  [0x5C, 0x00, 0x0A, 0x0D, 0x1A]

def escapePoint (point : CodePoint) : Bytes :=
  if point.val < 0x100 ∧ point.val ∉ disturbing then
    [UInt8.ofNat point.val]
  else if point.val < 0x10000 then
    0x5C :: 0x75 :: hexDigits 4 point.val
  else
    0x5C :: 0x55 :: hexDigits 8 point.val

/-- The notation of a text in a line. -/
def escapeLong (text : Text) : Bytes :=
  text.flatMap escapePoint

theorem newline_notMem_hexDigits (width number : Nat) :
    (0x0A : UInt8) ∉ hexDigits width number := by
  intro member
  have isDigit := isHexDigit_of_mem_hexDigits member
  revert isDigit
  decide

/-- An escaped text stays within its line. -/
theorem newline_notMem_escapeLong (text : Text) :
    (0x0A : UInt8) ∉ escapeLong text := by
  intro member
  obtain ⟨point, _, member⟩ := List.mem_flatMap.mp member
  unfold escapePoint at member
  split at member
  · next plain =>
      have same := congrArg UInt8.toNat (List.mem_singleton.mp member)
      have value : (UInt8.ofNat point.val).toNat = point.val :=
        UInt8.toNat_ofNat_of_lt' plain.1
      rw [value] at same
      apply plain.2
      rw [← same]
      decide
  · split at member
    · simp only [List.mem_cons, newline_notMem_hexDigits, or_false] at member
      revert member
      decide
    · simp only [List.mem_cons, newline_notMem_hexDigits, or_false] at member
      revert member
      decide

/-! ## Resolving -/

theorem unescapeLongFrom_digits
    {selector : UInt8} {width number : Nat} {truncated : String}
    (position : Nat) (rest : Bytes)
    (counted : longDigits? selector = some (width, truncated))
    (fits : number < 16 ^ width) (valid : number < 0x110000) :
    unescapeLongFrom position
        (0x5C :: selector :: (hexDigits width number ++ rest)) =
      (unescapeLongFrom (position + 2 + width) rest).map
        (⟨number, valid⟩ :: ·) := by
  have digits :
      ((hexDigits width number ++ rest).take width).takeWhile isHexDigit =
        hexDigits width number := by
    rw [List.take_left' (length_hexDigits width number),
      List.takeWhile_eq_self_iff]
    exact fun digit member => isHexDigit_of_mem_hexDigits member
  rw [unescapeLongFrom]
  simp only [ne_eq, not_true_eq_false, ↓reduceIte, counted, digits,
    length_hexDigits, Nat.lt_irrefl, hexNumber_hexDigits fits, valid,
    ↓reduceDIte, List.drop_left' (length_hexDigits width number)]

theorem unescapeLongFrom_escapePoint
    (position : Nat) (point : CodePoint) (rest : Bytes) :
    ∃ place, unescapeLongFrom position (escapePoint point ++ rest) =
      (unescapeLongFrom place rest).map (point :: ·) := by
  have bound := point.isLt
  unfold escapePoint
  split
  · next plain =>
      have value : (UInt8.ofNat point.val).toNat = point.val :=
        UInt8.toNat_ofNat_of_lt' plain.1
      have noBackslash : UInt8.ofNat point.val ≠ 0x5C := by
        intro same
        rw [same] at value
        apply plain.2
        rw [← value]
        decide
      refine ⟨position + 1, ?_⟩
      rw [List.singleton_append, unescapeLongFrom.eq_def]
      dsimp only
      rw [if_pos noBackslash]
      have same : CodePoint.ofByte (UInt8.ofNat point.val) = point :=
        Fin.ext value
      rw [same]
  · split
    · next short =>
        exact ⟨_, unescapeLongFrom_digits position rest rfl
          (by omega) bound⟩
    · exact ⟨_, unescapeLongFrom_digits position rest rfl
        (by omega) bound⟩

theorem unescapeLongFrom_escapeLong (position : Nat) (text : Text) :
    unescapeLongFrom position (escapeLong text) = .ok text := by
  induction text generalizing position with
  | nil =>
      rw [escapeLong, List.flatMap_nil, unescapeLongFrom]
  | cons point rest inductionHypothesis =>
      obtain ⟨place, resolved⟩ :=
        unescapeLongFrom_escapePoint position point (escapeLong rest)
      have split : escapeLong (point :: rest) =
          escapePoint point ++ escapeLong rest :=
        List.flatMap_cons
      rw [split, resolved, inductionHypothesis]
      rfl

theorem unescapeLong_escapeLong (text : Text) :
    unescapeLong (escapeLong text) = .ok text :=
  unescapeLongFrom_escapeLong 0 text

end PickleGraph.Escape
