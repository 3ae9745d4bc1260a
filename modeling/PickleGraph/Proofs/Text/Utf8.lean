import Mathlib.Data.List.TakeWhile
import PickleGraph.Text.Utf8

/-!
# Generalized UTF-8 is decoded to the text that was encoded

Every code point is written in the shortest form of its range, a surrogate in
three octets like its neighbours, and this form is read back as one step. No
other octets are read: a step takes the octets in which its code point is
written.
-/

namespace PickleGraph.Utf8

/-! ## Octets by their numbers -/

theorem continuationCount?_eq (lead : UInt8) :
    continuationCount? lead =
      if lead.toNat < 0x80 then some 0
      else if lead.toNat < 0xC2 then none
      else if lead.toNat < 0xE0 then some 1
      else if lead.toNat < 0xF0 then some 2
      else if lead.toNat < 0xF5 then some 3
      else none := by
  simp [continuationCount?, UInt8.lt_iff_toNat_lt]

theorem isContinuation_eq (byte : UInt8) :
    isContinuation byte = (0x80 ≤ byte.toNat && byte.toNat ≤ 0xBF) := by
  simp [isContinuation, UInt8.le_iff_toNat_le]

theorem admitsSecond_eq (lead second : UInt8) :
    admitsSecond lead second =
      (isContinuation second &&
        (if lead.toNat = 0xE0 then 0xA0 ≤ second.toNat
        else if lead.toNat = 0xED then second.toNat < 0xA0
        else if lead.toNat = 0xF0 then 0x90 ≤ second.toNat
        else if lead.toNat = 0xF4 then second.toNat < 0x90
        else true)) := by
  simp [admitsSecond, UInt8.lt_iff_toNat_lt, UInt8.le_iff_toNat_le,
    ← UInt8.toNat_inj]

theorem leadBits_eq (lead : UInt8) :
    leadBits lead =
      if lead.toNat < 0x80 then lead.toNat
      else if lead.toNat < 0xE0 then lead.toNat - 0xC0
      else if lead.toNat < 0xF0 then lead.toNat - 0xE0
      else lead.toNat - 0xF0 := by
  simp [leadBits, UInt8.lt_iff_toNat_lt]

@[simp] theorem toNat_continuationByte (bits : Nat) :
    (continuationByte bits).toNat = 0x80 + bits % 64 := by
  rw [continuationByte, UInt8.toNat_ofNat']
  omega

@[simp] theorem isContinuation_continuationByte (bits : Nat) :
    isContinuation (continuationByte bits) = true := by
  rw [isContinuation_eq, toNat_continuationByte]
  simp only [Bool.and_eq_true, decide_eq_true_eq]
  omega

@[simp] theorem appendBits_continuationByte (bits number : Nat) :
    appendBits number (continuationByte bits) =
      number * 64 + bits % 64 := by
  have cancel : 0x80 + bits % 64 - 0x80 = bits % 64 :=
    Nat.add_sub_cancel_left 0x80 _
  unfold appendBits
  rw [toNat_continuationByte, cancel]

/-! ## One step -/

theorem next_of_admitsSecond
    {lead second : UInt8} (others rest : Bytes)
    (counted : continuationCount? lead = some (others.length + 1))
    (admitted : admitsSecond lead second = true)
    (continued : ∀ byte ∈ others, isContinuation byte = true) :
    next lead (second :: (others ++ rest)) =
      .point
        (Fin.ofNat _ ((second :: others).foldl appendBits (leadBits lead)))
        (others.length + 2) := by
  have taken : (second :: (others ++ rest)).take (others.length + 1) =
      second :: others := by
    rw [List.take_succ_cons, List.take_left]
  rw [next, counted]
  dsimp only
  rw [taken]
  simp only [if_pos admitted, List.takeWhile_eq_self_iff.mpr continued,
    List.length_cons, ↓reduceIte]

theorem nextGeneralized_of_ne_surrogate
    {lead second : UInt8} (rest : Bytes)
    (plain : lead.toNat ≠ 0xED ∨ second.toNat < 0xA0) :
    nextGeneralized lead (second :: rest) = next lead (second :: rest) := by
  have none : surrogate? (lead :: second :: rest) = none := by
    unfold surrogate?
    split
    · next equality =>
        cases equality
        rw [if_neg]
        rintro ⟨rfl, late, _⟩
        rw [UInt8.le_iff_toNat_le] at late
        rcases plain with other | early
        · exact other rfl
        · exact absurd early (Nat.not_lt.mpr late)
    · rfl
  rw [nextGeneralized, none]

theorem nextGeneralized_surrogate
    {second third : UInt8} (rest : Bytes)
    (late : 0xA0 ≤ second.toNat)
    (secondContinues : isContinuation second = true)
    (thirdContinues : isContinuation third = true) :
    nextGeneralized 0xED (second :: third :: rest) =
      .point
        (Fin.ofNat _
          (appendBits (appendBits (leadBits 0xED) second) third)) 3 := by
  have late : (0xA0 : UInt8) ≤ second := UInt8.le_iff_toNat_le.mpr late
  rw [nextGeneralized, surrogate?,
    if_pos ⟨rfl, late, secondContinues, thirdContinues⟩]

/-- A single octet stands for itself. -/
theorem next_ascii
    {lead : UInt8} (rest : Bytes) (ascii : lead.toNat < 0x80) :
    next lead rest = .point (Fin.ofNat _ lead.toNat) 1 := by
  have counted : continuationCount? lead = some 0 := by
    rw [continuationCount?_eq, if_pos ascii]
  rw [next, counted]
  dsimp only
  rw [List.take_zero]
  dsimp only
  rw [if_pos List.length_nil, List.foldl_nil, leadBits_eq, if_pos ascii]

theorem nextGeneralized_ascii
    {lead : UInt8} (rest : Bytes) (ascii : lead.toNat < 0x80) :
    nextGeneralized lead rest = .point (Fin.ofNat _ lead.toNat) 1 := by
  have none : surrogate? (lead :: rest) = none := by
    unfold surrogate?
    split
    · next equality =>
        cases equality
        rw [if_neg]
        rintro ⟨rfl, _⟩
        exact absurd ascii (by decide)
    · rfl
  rw [nextGeneralized, none]
  exact next_ascii rest ascii

theorem ofNat_eq (point : CodePoint) {number : Nat}
    (equality : number = point.val) : Fin.ofNat _ number = point := by
  subst equality
  exact Fin.ofNat_val_eq_self point

/-! ## One code point -/

theorem toNat_lead {lead : Nat} (bound : lead < 256) :
    (UInt8.ofNat lead).toNat = lead :=
  UInt8.toNat_ofNat_of_lt' bound

theorem nextGeneralized_two {number : Nat} (rest : Bytes)
    (low : 0x80 ≤ number) (high : number < 0x800) :
    nextGeneralized (UInt8.ofNat (0xC0 + number / 64))
        (continuationByte number :: rest) =
      .point (Fin.ofNat _ number) 2 := by
  have lead : (UInt8.ofNat (0xC0 + number / 64)).toNat =
      0xC0 + number / 64 :=
    toNat_lead (by omega)
  have counted : continuationCount? (UInt8.ofNat (0xC0 + number / 64)) =
      some 1 := by
    rw [continuationCount?_eq, lead]
    grind
  have admitted : admitsSecond (UInt8.ofNat (0xC0 + number / 64))
      (continuationByte number) = true := by
    rw [admitsSecond_eq, lead, isContinuation_continuationByte]
    grind
  have bits : [continuationByte number].foldl appendBits
      (leadBits (UInt8.ofNat (0xC0 + number / 64))) = number := by
    simp only [List.foldl_cons, List.foldl_nil, appendBits_continuationByte,
      leadBits_eq, lead]
    grind
  have step := next_of_admitsSecond [] rest counted admitted (by simp)
  rw [bits] at step
  exact (nextGeneralized_of_ne_surrogate rest (.inl (by omega))).trans step

theorem nextGeneralized_three_surrogate {number : Nat} (rest : Bytes)
    (low : 0xD800 ≤ number) (high : number < 0xE000) :
    nextGeneralized (UInt8.ofNat (0xE0 + number / 4096))
        (continuationByte (number / 64) :: continuationByte number :: rest) =
      .point (Fin.ofNat _ number) 3 := by
  have isLead : UInt8.ofNat (0xE0 + number / 4096) = 0xED := by
    rw [← UInt8.toNat_inj, toNat_lead (by omega)]
    show _ = 0xED
    omega
  have late : 0xA0 ≤ (continuationByte (number / 64)).toNat := by
    rw [toNat_continuationByte]
    omega
  have bits : appendBits (appendBits (leadBits 0xED)
      (continuationByte (number / 64))) (continuationByte number) =
        number := by
    simp only [appendBits_continuationByte, leadBits_eq]
    show (0xD * 64 + _) * 64 + _ = number
    omega
  rw [isLead, nextGeneralized_surrogate rest late
    (isContinuation_continuationByte _) (isContinuation_continuationByte _),
    bits]

theorem nextGeneralized_three {number : Nat} (rest : Bytes)
    (low : 0x800 ≤ number) (high : number < 0x10000)
    (plain : number < 0xD800 ∨ 0xE000 ≤ number) :
    nextGeneralized (UInt8.ofNat (0xE0 + number / 4096))
        (continuationByte (number / 64) :: continuationByte number :: rest) =
      .point (Fin.ofNat _ number) 3 := by
  have lead : (UInt8.ofNat (0xE0 + number / 4096)).toNat =
      0xE0 + number / 4096 :=
    toNat_lead (by omega)
  have noSurrogate : (UInt8.ofNat (0xE0 + number / 4096)).toNat ≠ 0xED ∨
      (continuationByte (number / 64)).toNat < 0xA0 := by
    rw [lead, toNat_continuationByte]
    omega
  have counted : continuationCount? (UInt8.ofNat (0xE0 + number / 4096)) =
      some 2 := by
    rw [continuationCount?_eq, lead]
    grind
  have admitted : admitsSecond (UInt8.ofNat (0xE0 + number / 4096))
      (continuationByte (number / 64)) = true := by
    rw [admitsSecond_eq, lead, isContinuation_continuationByte,
      toNat_continuationByte]
    grind
  have bits : [continuationByte (number / 64),
      continuationByte number].foldl appendBits
        (leadBits (UInt8.ofNat (0xE0 + number / 4096))) = number := by
    simp only [List.foldl_cons, List.foldl_nil, appendBits_continuationByte,
      leadBits_eq, lead]
    grind
  have step := next_of_admitsSecond [continuationByte number] rest counted
    admitted (by simp)
  rw [bits] at step
  exact (nextGeneralized_of_ne_surrogate _ noSurrogate).trans step

theorem nextGeneralized_four {number : Nat} (rest : Bytes)
    (low : 0x10000 ≤ number) (high : number < 0x110000) :
    nextGeneralized (UInt8.ofNat (0xF0 + number / 262144))
        (continuationByte (number / 4096) :: continuationByte (number / 64) ::
          continuationByte number :: rest) =
      .point (Fin.ofNat _ number) 4 := by
  have lead : (UInt8.ofNat (0xF0 + number / 262144)).toNat =
      0xF0 + number / 262144 :=
    toNat_lead (by omega)
  have counted : continuationCount? (UInt8.ofNat (0xF0 + number / 262144)) =
      some 3 := by
    rw [continuationCount?_eq, lead]
    grind
  have admitted : admitsSecond (UInt8.ofNat (0xF0 + number / 262144))
      (continuationByte (number / 4096)) = true := by
    rw [admitsSecond_eq, lead, isContinuation_continuationByte,
      toNat_continuationByte]
    grind
  have bits : [continuationByte (number / 4096),
      continuationByte (number / 64), continuationByte number].foldl
        appendBits (leadBits (UInt8.ofNat (0xF0 + number / 262144))) =
          number := by
    simp only [List.foldl_cons, List.foldl_nil, appendBits_continuationByte,
      leadBits_eq, lead]
    grind
  have step := next_of_admitsSecond
    [continuationByte (number / 64), continuationByte number] rest counted
    admitted (by simp)
  rw [bits] at step
  exact (nextGeneralized_of_ne_surrogate _ (.inl (by omega))).trans step

/-- The octets of a code point are read back in one step. -/
theorem nextGeneralized_encodePoint (point : CodePoint) (rest : Bytes) :
    ∃ lead others, encodePoint point = lead :: others ∧
      nextGeneralized lead (others ++ rest) =
        .point point (others.length + 1) := by
  obtain ⟨number, bound⟩ := point
  have same : Fin.ofNat 0x110000 number = ⟨number, bound⟩ :=
    ofNat_eq ⟨number, bound⟩ rfl
  unfold encodePoint
  dsimp only
  split
  · next ascii =>
      have lead : (UInt8.ofNat number).toNat = number :=
        toNat_lead (by omega)
      refine ⟨_, _, rfl, ?_⟩
      rw [nextGeneralized_ascii _ (by rwa [lead]), lead, same]
      rfl
  split
  · exact ⟨_, _, rfl, same ▸ nextGeneralized_two rest (by omega) (by omega)⟩
  split
  · refine ⟨_, _, rfl, ?_⟩
    by_cases surrogate : 0xD800 ≤ number ∧ number < 0xE000
    · exact same ▸ nextGeneralized_three_surrogate rest surrogate.1 surrogate.2
    · exact same ▸ nextGeneralized_three rest (by omega) (by omega) (by omega)
  · exact ⟨_, _, rfl, same ▸ nextGeneralized_four rest (by omega) bound⟩

/-! ## Whole texts -/

theorem decodeFrom_encodeGeneralized (position : Nat) (text : Text) :
    decodeFrom nextGeneralized position (encodeGeneralized text) =
      .ok text := by
  induction text generalizing position with
  | nil =>
      rw [encodeGeneralized, List.flatMap_nil, decodeFrom]
  | cons point rest inductionHypothesis =>
      obtain ⟨lead, others, octets, read⟩ :=
        nextGeneralized_encodePoint point (encodeGeneralized rest)
      have split : encodeGeneralized (point :: rest) =
          lead :: (others ++ encodeGeneralized rest) := by
        rw [encodeGeneralized, List.flatMap_cons, octets]
        rfl
      rw [split, decodeFrom, read]
      dsimp only
      rw [Nat.add_sub_cancel, List.drop_left, inductionHypothesis]
      rfl

theorem decodeGeneralized_encodeGeneralized (text : Text) :
    decodeGeneralized (encodeGeneralized text) = .ok text :=
  decodeFrom_encodeGeneralized 0 text

/-! ## What is read is what would be written -/

/-- The octets that may follow a lead octet. -/
def Continues (lead : UInt8) : Bytes → Prop
  | [] => True
  | second :: others =>
      admitsSecond lead second = true ∧
        ∀ byte ∈ others, isContinuation byte = true

theorem next_eq_point {lead : UInt8} {rest : Bytes} {point : CodePoint}
    {width : Nat} (read : next lead rest = .point point width) :
    ∃ others, rest.take (width - 1) = others ∧
      continuationCount? lead = some others.length ∧
      Continues lead others ∧
      Fin.ofNat _ (others.foldl appendBits (leadBits lead)) = point := by
  unfold next at read
  cases counted : continuationCount? lead with
  | none =>
      rw [counted] at read
      cases read
  | some count =>
      rw [counted] at read
      dsimp only at read
      have finish : ∀ {others : Bytes},
          (if others.length = count then
            Step.point (Fin.ofNat _ (others.foldl appendBits (leadBits lead)))
              (count + 1)
          else if others.length = rest.length then
            .fault (others.length + 1) .unexpectedEnd
          else
            .fault (others.length + 1) .invalidContinuation) =
              .point point width →
          others.length = count ∧ width = count + 1 ∧
            Fin.ofNat _ (others.foldl appendBits (leadBits lead)) = point := by
        intro others ends
        split at ends
        · next full =>
            injection ends with isPoint isWidth
            exact ⟨full, isWidth.symm, isPoint⟩
        · split at ends <;> cases ends
      cases taken : rest.take count with
      | nil =>
          rw [taken] at read
          obtain ⟨full, rfl, isPoint⟩ := finish read
          exact ⟨[], taken, congrArg some full.symm, trivial, isPoint⟩
      | cons second others =>
          rw [taken] at read
          dsimp only at read
          have atMost : (second :: others).length ≤ count :=
            taken ▸ List.length_take_le count rest
          by_cases admitted : admitsSecond lead second = true
          · simp only [if_pos admitted] at read
            obtain ⟨full, rfl, isPoint⟩ := finish read
            have continued : others.takeWhile isContinuation = others := by
              refine (List.takeWhile_prefix _).eq_of_length_le ?_
              rw [List.length_cons] at full atMost
              omega
            rw [continued] at full isPoint
            exact ⟨second :: others, taken, congrArg some full.symm,
              ⟨admitted, List.takeWhile_eq_self_iff.mp continued⟩, isPoint⟩
          · simp only [if_neg admitted] at read
            obtain ⟨full, rfl, _⟩ := finish read
            rw [← full] at atMost
            exact absurd atMost (Nat.not_succ_le_zero _)

theorem continuationByte_eq {byte : UInt8} {bits : Nat}
    (continues : isContinuation byte = true)
    (same : bits % 64 = byte.toNat - 0x80) : continuationByte bits = byte := by
  rw [isContinuation_eq] at continues
  simp only [Bool.and_eq_true, decide_eq_true_eq] at continues
  rw [← UInt8.toNat_inj, toNat_continuationByte]
  omega

theorem ofNat_eq_lead {byte : UInt8} {number : Nat}
    (same : number = byte.toNat) : UInt8.ofNat number = byte := by
  subst same
  exact UInt8.ofNat_toNat

theorem encodePoint_ofNat {number : Nat} (bound : number < 0x110000) :
    encodePoint (Fin.ofNat _ number) =
      if number < 0x80 then
        [UInt8.ofNat number]
      else if number < 0x800 then
        [UInt8.ofNat (0xC0 + number / 64), continuationByte number]
      else if number < 0x10000 then
        [UInt8.ofNat (0xE0 + number / 4096), continuationByte (number / 64),
          continuationByte number]
      else
        [UInt8.ofNat (0xF0 + number / 262144),
          continuationByte (number / 4096), continuationByte (number / 64),
          continuationByte number] := by
  have value : (Fin.ofNat 0x110000 number).val = number :=
    Nat.mod_eq_of_lt bound
  unfold encodePoint
  rw [value]

theorem isContinuation_bounds {byte : UInt8}
    (continues : isContinuation byte = true) :
    0x80 ≤ byte.toNat ∧ byte.toNat < 0xC0 := by
  rw [isContinuation_eq] at continues
  simp only [Bool.and_eq_true, decide_eq_true_eq] at continues
  omega

theorem encodePoint_two {lead second : UInt8}
    (low : 0xC2 ≤ lead.toNat) (high : lead.toNat < 0xE0)
    (continues : isContinuation second = true) :
    encodePoint (Fin.ofNat _ (appendBits (leadBits lead) second)) =
      [lead, second] := by
  have bounds := isContinuation_bounds continues
  have bits : leadBits lead = lead.toNat - 0xC0 := by
    rw [leadBits_eq, if_neg (by omega), if_pos high]
  unfold appendBits
  rw [bits]
  generalize isNumber :
    (lead.toNat - 0xC0) * 64 + (second.toNat - 0x80) = number
  have isLead : UInt8.ofNat (0xC0 + number / 64) = lead :=
    ofNat_eq_lead (by omega)
  have isSecond : continuationByte number = second :=
    continuationByte_eq continues (by omega)
  have bound : number < 0x110000 := by
    omega
  rw [encodePoint_ofNat bound, if_neg (by omega), if_pos (by omega), isLead,
    isSecond]

theorem encodePoint_three {lead second third : UInt8}
    (low : 0xE0 ≤ lead.toNat) (high : lead.toNat < 0xF0)
    (shortest : lead.toNat = 0xE0 → 0xA0 ≤ second.toNat)
    (secondContinues : isContinuation second = true)
    (thirdContinues : isContinuation third = true) :
    encodePoint (Fin.ofNat _
        (appendBits (appendBits (leadBits lead) second) third)) =
      [lead, second, third] := by
  have secondBounds := isContinuation_bounds secondContinues
  have thirdBounds := isContinuation_bounds thirdContinues
  have bits : leadBits lead = lead.toNat - 0xE0 := by
    rw [leadBits_eq, if_neg (by omega), if_neg (by omega), if_pos high]
  unfold appendBits
  rw [bits]
  generalize isNumber :
    ((lead.toNat - 0xE0) * 64 + (second.toNat - 0x80)) * 64 +
      (third.toNat - 0x80) = number
  have isLead : UInt8.ofNat (0xE0 + number / 4096) = lead :=
    ofNat_eq_lead (by omega)
  have isSecond : continuationByte (number / 64) = second :=
    continuationByte_eq secondContinues (by omega)
  have isThird : continuationByte number = third :=
    continuationByte_eq thirdContinues (by omega)
  have bound : number < 0x110000 := by
    omega
  rw [encodePoint_ofNat bound, if_neg (by omega), if_neg (by omega),
    if_pos (by omega), isLead, isSecond, isThird]

theorem encodePoint_four {lead second third fourth : UInt8}
    (low : 0xF0 ≤ lead.toNat) (high : lead.toNat < 0xF5)
    (shortest : lead.toNat = 0xF0 → 0x90 ≤ second.toNat)
    (inRange : lead.toNat = 0xF4 → second.toNat < 0x90)
    (secondContinues : isContinuation second = true)
    (thirdContinues : isContinuation third = true)
    (fourthContinues : isContinuation fourth = true) :
    encodePoint (Fin.ofNat _ (appendBits
        (appendBits (appendBits (leadBits lead) second) third) fourth)) =
      [lead, second, third, fourth] := by
  have secondBounds := isContinuation_bounds secondContinues
  have thirdBounds := isContinuation_bounds thirdContinues
  have fourthBounds := isContinuation_bounds fourthContinues
  have bits : leadBits lead = lead.toNat - 0xF0 := by
    rw [leadBits_eq, if_neg (by omega), if_neg (by omega), if_neg (by omega)]
  unfold appendBits
  rw [bits]
  generalize isNumber :
    (((lead.toNat - 0xF0) * 64 + (second.toNat - 0x80)) * 64 +
      (third.toNat - 0x80)) * 64 + (fourth.toNat - 0x80) = number
  have isLead : UInt8.ofNat (0xF0 + number / 262144) = lead :=
    ofNat_eq_lead (by omega)
  have isSecond : continuationByte (number / 4096) = second :=
    continuationByte_eq secondContinues (by omega)
  have isThird : continuationByte (number / 64) = third :=
    continuationByte_eq thirdContinues (by omega)
  have isFourth : continuationByte number = fourth :=
    continuationByte_eq fourthContinues (by omega)
  have bound : number < 0x110000 := by
    omega
  rw [encodePoint_ofNat bound, if_neg (by omega), if_neg (by omega),
    if_neg (by omega), isLead, isSecond, isThird, isFourth]

theorem encodePoint_of_continues {lead : UInt8} {others : Bytes}
    (counted : continuationCount? lead = some others.length)
    (continues : Continues lead others) :
    encodePoint (Fin.ofNat _ (others.foldl appendBits (leadBits lead))) =
      lead :: others := by
  rw [continuationCount?_eq] at counted
  rcases others with _ | ⟨second, _ | ⟨third, _ | ⟨fourth, _ | _⟩⟩⟩
  · have ascii : lead.toNat < 0x80 := by
      grind
    have bound : lead.toNat < 0x110000 := by
      omega
    rw [List.foldl_nil, leadBits_eq, if_pos ascii, encodePoint_ofNat bound,
      if_pos ascii, UInt8.ofNat_toNat]
  · obtain ⟨admitted, _⟩ := continues
    rw [admitsSecond_eq, Bool.and_eq_true] at admitted
    have range : 0xC2 ≤ lead.toNat ∧ lead.toNat < 0xE0 := by
      grind
    exact encodePoint_two range.1 range.2 admitted.1
  · obtain ⟨admitted, isThird⟩ := continues
    rw [admitsSecond_eq, Bool.and_eq_true] at admitted
    have range : 0xE0 ≤ lead.toNat ∧ lead.toNat < 0xF0 := by
      grind
    have shortest : lead.toNat = 0xE0 → 0xA0 ≤ second.toNat := by
      grind
    exact encodePoint_three range.1 range.2 shortest admitted.1
      (isThird third List.mem_cons_self)
  · obtain ⟨admitted, following⟩ := continues
    rw [admitsSecond_eq, Bool.and_eq_true] at admitted
    have isThird := following third List.mem_cons_self
    have isFourth := following fourth (List.mem_cons_of_mem _
      List.mem_cons_self)
    have range : 0xF0 ≤ lead.toNat ∧ lead.toNat < 0xF5 := by
      grind
    have shortest : lead.toNat = 0xF0 → 0x90 ≤ second.toNat := by
      grind
    have inRange : lead.toNat = 0xF4 → second.toNat < 0x90 := by
      grind
    exact encodePoint_four range.1 range.2 shortest inRange admitted.1
      isThird isFourth
  · grind

/-- What a step reads is what the code point is written as. -/
theorem encodePoint_of_next {lead : UInt8} {rest : Bytes}
    {point : CodePoint} {width : Nat}
    (read : next lead rest = .point point width) :
    encodePoint point = lead :: rest.take (width - 1) := by
  obtain ⟨others, taken, counted, continues, isPoint⟩ := next_eq_point read
  rw [taken, ← isPoint]
  exact encodePoint_of_continues counted continues

theorem encodePoint_of_surrogate? {lead : UInt8} {rest : Bytes}
    {point : CodePoint} (read : surrogate? (lead :: rest) = some point) :
    encodePoint point = lead :: rest.take 2 := by
  rcases rest with _ | ⟨second, _ | ⟨third, rest⟩⟩
  · cases read
  · cases read
  · rw [surrogate?] at read
    split at read
    · next isLong =>
        obtain ⟨rfl, _, isSecond, isThird⟩ := isLong
        injection read with isPoint
        rw [← isPoint]
        exact encodePoint_three (by decide) (by decide)
          (fun isLead => absurd isLead (by decide)) isSecond isThird
    · cases read

theorem encodePoint_of_nextGeneralized {lead : UInt8} {rest : Bytes}
    {point : CodePoint} {width : Nat}
    (read : nextGeneralized lead rest = .point point width) :
    encodePoint point = lead :: rest.take (width - 1) := by
  unfold nextGeneralized at read
  split at read
  · next surrogate =>
      injection read with isPoint isWidth
      subst isPoint isWidth
      exact encodePoint_of_surrogate? surrogate
  · exact encodePoint_of_next read

theorem encodeGeneralized_of_decodeFrom {position : Nat} {bytes : Bytes}
    {text : Text}
    (read : decodeFrom nextGeneralized position bytes = .ok text) :
    encodeGeneralized text = bytes := by
  induction position, bytes using decodeFrom.induct nextGeneralized
    generalizing text with
  | case1 position =>
      rw [decodeFrom] at read
      cases read
      rfl
  | case2 position lead rest width reason fault =>
      rw [decodeFrom, fault] at read
      cases read
  | case3 position lead rest point width isPoint inductionHypothesis =>
      rw [decodeFrom, isPoint] at read
      dsimp only at read
      cases later : decodeFrom nextGeneralized (position + width)
          (rest.drop (width - 1)) with
      | error fault =>
          rw [later] at read
          cases read
      | ok others =>
          rw [later] at read
          cases read
          calc encodeGeneralized (point :: others)
            _ = encodePoint point ++ encodeGeneralized others := rfl
            _ = lead :: (rest.take (width - 1) ++ rest.drop (width - 1)) := by
              rw [encodePoint_of_nextGeneralized isPoint,
                inductionHypothesis later, List.cons_append]
            _ = lead :: rest := by
              rw [List.take_append_drop]

/-- A byte string is read as a text exactly when it is how that text is
written. -/
theorem decodeGeneralized_eq_ok_iff {bytes : Bytes} {text : Text} :
    decodeGeneralized bytes = .ok text ↔ bytes = encodeGeneralized text := by
  constructor
  · intro read
    exact (encodeGeneralized_of_decodeFrom read).symm
  · rintro rfl
    exact decodeGeneralized_encodeGeneralized text

/-! ## Texts without surrogates -/

theorem surrogate?_of_point {lead : UInt8} {rest : Bytes} {point : CodePoint}
    {width : Nat} (read : next lead rest = .point point width) :
    surrogate? (lead :: rest) = none := by
  unfold surrogate?
  split
  · next second third others equality =>
      cases equality
      rw [if_neg]
      rintro ⟨rfl, late, _⟩
      have refused : admitsSecond 0xED second = false := by
        rw [admitsSecond_eq]
        simpa using fun _ : isContinuation second = true =>
          UInt8.le_iff_toNat_le.mp late
      have counted : continuationCount? 0xED = some 2 := rfl
      simp [next, counted, refused] at read
  · rfl

/-- What is read without surrogates is read alike where they are admitted. -/
theorem decodeFrom_generalized {position : Nat} {bytes : Bytes} {text : Text}
    (read : decodeFrom next position bytes = .ok text) :
    decodeFrom nextGeneralized position bytes = .ok text := by
  induction position, bytes using decodeFrom.induct next generalizing text with
  | case1 position => rw [decodeFrom] at read ⊢; exact read
  | case2 position lead rest width reason fault =>
      rw [decodeFrom, fault] at read
      cases read
  | case3 position lead rest point width isPoint inductionHypothesis =>
      have general : nextGeneralized lead rest = .point point width := by
        rw [nextGeneralized, surrogate?_of_point isPoint, isPoint]
      rw [decodeFrom, isPoint] at read
      rw [decodeFrom, general]
      dsimp only at read ⊢
      cases later : decodeFrom next (position + width)
          (rest.drop (width - 1)) with
      | error fault =>
          rw [later] at read
          cases read
      | ok others =>
          rw [later] at read
          rw [inductionHypothesis later]
          exact read

theorem decodeGeneralized_of_decode {bytes : Bytes} {text : Text}
    (read : decode bytes = .ok text) : decodeGeneralized bytes = .ok text :=
  decodeFrom_generalized read

theorem isSurrogate_of_surrogate? {bytes : Bytes} {point : CodePoint}
    (read : surrogate? bytes = some point) : point.isSurrogate = true := by
  unfold surrogate? at read
  split at read
  · next lead second third _ =>
      split at read
      · next isLong =>
          obtain ⟨isLead, late, isSecond, isThird⟩ := isLong
          rw [isContinuation_eq] at isSecond isThird
          simp only [Bool.and_eq_true, decide_eq_true_eq] at isSecond isThird
          have lower : 0xA0 ≤ second.toNat := UInt8.le_iff_toNat_le.mp late
          have leadValue : leadBits 0xED = 0x0D := by decide
          rw [Option.some.injEq, isLead] at read
          have small : appendBits (appendBits 0x0D second) third <
              0x110000 := by
            unfold appendBits
            omega
          have value : point.val =
              appendBits (appendBits 0x0D second) third := by
            rw [leadValue] at read
            exact (congrArg Fin.val read).symm.trans (Nat.mod_eq_of_lt small)
          have inRange : 0xD800 ≤ point.val ∧ point.val ≤ 0xDFFF := by
            rw [value]
            unfold appendBits
            omega
          simpa [CodePoint.isSurrogate] using inRange
      · cases read
  · cases read

/-- The octets of a code point that is no surrogate are read back in one step
where surrogates are not admitted either. -/
theorem next_encodePoint {point : CodePoint}
    (plain : point.isSurrogate = false) (rest : Bytes) :
    ∃ lead others, encodePoint point = lead :: others ∧
      next lead (others ++ rest) = .point point (others.length + 1) := by
  obtain ⟨lead, others, octets, read⟩ := nextGeneralized_encodePoint point rest
  refine ⟨lead, others, octets, ?_⟩
  unfold nextGeneralized at read
  split at read
  · next found isFound =>
      have isSurrogate := isSurrogate_of_surrogate? isFound
      injection read with same _
      rw [same, plain] at isSurrogate
      cases isSurrogate
  · exact read

theorem decode_encodeGeneralized {text : Text}
    (plain : ∀ point ∈ text, point.isSurrogate = false) :
    decode (encodeGeneralized text) = .ok text := by
  have read : ∀ position, decodeFrom next position (encodeGeneralized text) =
      .ok text := by
    induction text with
    | nil =>
        intro position
        rw [encodeGeneralized, List.flatMap_nil, decodeFrom]
    | cons point rest inductionHypothesis =>
        intro position
        obtain ⟨isPlain, others⟩ := List.forall_mem_cons.mp plain
        obtain ⟨lead, octets, encoded, read⟩ :=
          next_encodePoint isPlain (encodeGeneralized rest)
        have split : encodeGeneralized (point :: rest) =
            lead :: (octets ++ encodeGeneralized rest) := by
          rw [encodeGeneralized, List.flatMap_cons, encoded]
          rfl
        rw [split, decodeFrom, read]
        dsimp only
        rw [Nat.add_sub_cancel, List.drop_left, inductionHypothesis others]
        rfl
  exact read 0

end PickleGraph.Utf8
