import PickleGraph.Proofs.Decoding.Unframed

/-!
# Readers of framed streams

A stream is read in one piece or through frames. Whatever is read from the one
piece is read through frames as well, as long as the frames cover it from where
it starts, or leave it out.
-/

namespace PickleGraph.Reader

variable {below after : Reader} {position count : Nat} {data : Bytes}

/-! ## Successful reading -/

theorem exactly_eq_ok_iff {rebuild : Reader → Nat → Reader}
    {result : EStateM.Result Failure Reader Bytes} :
    exactly count position rebuild result = .ok data after ↔
      ∃ further, result = .ok data further ∧ count ≤ data.length ∧
        after = rebuild further (position + count) := by
  cases result with
  | error failure further => simp [exactly]
  | ok content further =>
      rw [exactly]
      split
      · next short =>
          constructor
          · intro success
            cases success
          · rintro ⟨_, same, long, _⟩
            cases same
            exact absurd short (Nat.not_lt.mpr long)
      · next long =>
          constructor
          · intro success
            cases success
            exact ⟨further, rfl, Nat.le_of_not_lt long, rfl⟩
          · rintro ⟨_, same, _, rfl⟩
            cases same
            rfl

theorem read_unframed_eq_ok_iff :
    (unframer below position none).read count = .ok data after ↔
      ∃ further, below.read count = .ok data further ∧
        count ≤ data.length ∧
        after = unframer further (position + count) none := by
  rw [read, if_neg (Int.not_lt.mpr (Int.natCast_nonneg count)),
    Int.toNat_natCast]
  exact exactly_eq_ok_iff

theorem lt_countLimit_iff :
    (count : Int) < countLimit ↔ count < 2 ^ 63 := by
  unfold countLimit
  omega

theorem within_of_lt (inRange : (count : Int) < countLimit) :
    ¬ ((count : Int) < -countLimit ∨ countLimit ≤ count) := by
  unfold countLimit at *
  omega

/-- An empty frame is given up as soon as anything is asked for. -/
theorem read_framed_of_empty {frame : Frame} (empty : frame.rest = [])
    (positive : count ≠ 0) (inRange : (count : Int) < countLimit) :
    (unframer below position (some frame)).read count =
      (unframer below position none).read count := by
  have natural : ¬ (count : Int) < 0 := by omega
  have within := within_of_lt inRange
  have asked : ((count : Int) != 0) = true := by
    simpa using positive
  have bare : (unframer below position none).read count =
      exactly (count : Int).toNat position (unframer · · none)
        (below.read count) := by
    rw [read, if_neg natural]
  rw [bare, read, if_neg within]
  dsimp only
  rw [if_neg natural, if_neg natural, empty, List.take_nil, asked]
  rfl

/-- A frame that holds enough hands it out. -/
theorem read_framed_of_le {frame : Frame}
    (enough : count ≤ frame.rest.length)
    (inRange : (count : Int) < countLimit) :
    (unframer below position (some frame)).read count =
      .ok (frame.rest.take count)
        (unframer below position (some (frame.skip count))) := by
  have natural : ¬ (count : Int) < 0 := by omega
  have within := within_of_lt inRange
  have length : (frame.rest.take count).length = count :=
    List.length_take_of_le enough
  have asked :
      ((frame.rest.take count).isEmpty && (count : Int) != 0) = false := by
    cases count with
    | zero => rfl
    | succ count =>
        cases taken : frame.rest.take (count + 1) with
        | nil =>
            rw [taken] at length
            cases length
        | cons byte rest => rfl
  rw [read, if_neg within]
  dsimp only
  rw [if_neg natural, Int.toNat_natCast, asked, length,
    if_neg (Int.lt_irrefl _)]
  rfl

/-- A frame that holds something, but not enough, is not read beyond. -/
theorem read_framed_of_lt {frame : Frame} (some_ : frame.rest ≠ [])
    (short : frame.rest.length < count) :
    (unframer below position (some frame)).read count ≠ .ok data after := by
  have natural : ¬ (count : Int) < 0 := by omega
  have taken : frame.rest.take count = frame.rest :=
    List.take_of_length_le (Nat.le_of_lt short)
  have nonempty : frame.rest.isEmpty = false := by
    simpa using some_
  rw [read]
  split
  · simp
  · dsimp only
    rw [Int.toNat_natCast, taken, nonempty, Bool.false_and,
      if_neg Bool.false_ne_true, if_pos (Int.ofNat_lt.mpr short)]
    simp

/-- Reading through a frame takes everything from the frame, or nothing. -/
theorem read_framed_eq_ok_iff {frame : Frame}
    (inRange : (count : Int) < countLimit) :
    (unframer below position (some frame)).read count = .ok data after ↔
      (frame.rest = [] ∧ count ≠ 0 ∧
          (unframer below position none).read count = .ok data after) ∨
        ∃ more, frame.rest = data ++ more ∧ data.length = count ∧
          after = unframer below position (some (frame.skip count)) := by
  constructor
  · intro success
    rcases Nat.lt_or_ge frame.rest.length count with short | enough
    · by_cases empty : frame.rest = []
      · have positive : count ≠ 0 := Nat.ne_zero_of_lt short
        rw [read_framed_of_empty empty positive inRange] at success
        exact .inl ⟨empty, positive, success⟩
      · exact absurd success (read_framed_of_lt empty short)
    · rw [read_framed_of_le enough inRange] at success
      cases success
      exact .inr ⟨frame.rest.drop count, (List.take_append_drop _ _).symm,
        List.length_take_of_le enough, rfl⟩
  · rintro (⟨empty, positive, success⟩ | ⟨more, rest, length, rfl⟩)
    · rw [read_framed_of_empty empty positive inRange]
      exact success
    · have enough : count ≤ frame.rest.length := by
        rw [rest, List.length_append, length]
        exact Nat.le_add_right _ _
      rw [read_framed_of_le enough inRange, rest, List.take_left' length]

theorem inRange_of_read {reader : Reader}
    (success : reader.read count = .ok data after) :
    (count : Int) < countLimit := by
  induction reader generalizing data after with
  | file rest offset ending =>
      rw [read, readFile] at success
      split at success
      · cases success
      · next inRange => exact Int.not_le.mp inRange
  | cursor below position inductionHypothesis =>
      rw [read, if_neg (Int.not_lt.mpr (Int.natCast_nonneg count)),
        Int.toNat_natCast] at success
      obtain ⟨further, below, _⟩ := exactly_eq_ok_iff.mp success
      exact inductionHypothesis below
  | unframer below position frame inductionHypothesis =>
      cases frame with
      | none =>
          obtain ⟨further, below, _⟩ := read_unframed_eq_ok_iff.mp success
          exact inductionHypothesis below
      | some frame =>
          rw [read] at success
          split at success
          · cases success
          · next within =>
              exact Int.not_le.mp fun tooLarge => within (.inr tooLarge)

/-! ## Successful reading of lines -/

/-- A line with its newline. -/
def IsLine (line : Bytes) : Prop :=
  ∃ content, line = content ++ [0x0A] ∧ (0x0A : UInt8) ∉ content

theorem isLine_splitLine {content : Bytes}
    (ends : endsLine (splitLine content).1 = true) :
    IsLine (splitLine content).1 := by
  induction content with
  | nil => cases ends
  | cons byte rest inductionHypothesis =>
      rw [splitLine] at ends ⊢
      split at ends
      · next isNewline =>
          rw [if_pos isNewline, isNewline]
          exact ⟨[], rfl, List.not_mem_nil⟩
      · next noNewline =>
          rw [if_neg noNewline]
          dsimp only at ends ⊢
          have rest : endsLine (splitLine rest).1 = true := by
            cases line : (splitLine rest).1 with
            | nil =>
                rw [line] at ends
                rw [endsLine, List.getLast?_singleton, beq_iff_eq,
                  Option.some.injEq] at ends
                exact absurd ends noNewline
            | cons next others =>
                rw [line, endsLine, List.getLast?_cons_cons] at ends
                exact ends
          obtain ⟨start, line, noneBefore⟩ := inductionHypothesis rest
          refine ⟨byte :: start, by rw [line]; rfl, ?_⟩
          rw [List.mem_cons, not_or]
          exact ⟨fun same => noNewline same.symm, noneBefore⟩

theorem IsLine.endsLine {line : Bytes} (isLine : IsLine line) :
    Reader.endsLine line = true := by
  obtain ⟨content, rfl, _⟩ := isLine
  rw [Reader.endsLine, List.getLast?_concat]
  rfl

theorem IsLine.splitLine_append {line : Bytes} (isLine : IsLine line)
    (rest : Bytes) : splitLine (line ++ rest) = (line, rest) := by
  obtain ⟨content, rfl, noNewline⟩ := isLine
  rw [List.append_assoc]
  exact splitLine_of_notMem rest noNewline

theorem readLine_unframed_eq_ok_iff :
    (unframer below position none).readLine = .ok data after ↔
      ∃ further, below.readLine = .ok data further ∧
        endsLine data = true ∧
        after = unframer further (position + data.length) none := by
  rw [readLine]
  cases below.readLine with
  | error failure further => simp [wholeLine]
  | ok line further =>
      rw [wholeLine]
      split
      · next ends =>
          constructor
          · intro success
            cases success
            exact ⟨further, rfl, ends, rfl⟩
          · rintro ⟨_, same, _, rfl⟩
            cases same
            rfl
      · next noEnd =>
          constructor
          · intro success
            cases success
          · rintro ⟨_, same, ends, _⟩
            cases same
            exact absurd ends noEnd

/-- A line is read from a frame as a whole, or not at all. -/
theorem readLine_framed_eq_ok_iff {frame : Frame} :
    (unframer below position (some frame)).readLine = .ok data after ↔
      (frame.rest = [] ∧
          (unframer below position none).readLine = .ok data after) ∨
        ∃ more, frame.rest = data ++ more ∧ IsLine data ∧
          after =
            unframer below position (some (frame.skip data.length)) := by
  have split := splitLine_append frame.rest
  constructor
  · intro success
    rw [readLine] at success
    dsimp only at success
    split at success
    · next empty =>
        have nothing : frame.rest = [] := by
          cases rest : frame.rest with
          | nil => rfl
          | cons byte rest' =>
              rw [rest, splitLine] at empty
              split at empty <;> cases empty
        exact .inl ⟨nothing, success⟩
    · split at success
      · next ends =>
          cases success
          exact .inr ⟨_, split.symm, isLine_splitLine ends, rfl⟩
      · cases success
  · rintro (⟨empty, success⟩ | ⟨more, rest, isLine, rfl⟩)
    · rw [readLine, empty]
      exact success
    · have whole := isLine.splitLine_append more
      have nonempty : ¬ data.isEmpty = true := by
        obtain ⟨content, rfl, _⟩ := isLine
        simp
      rw [readLine, rest, whole]
      dsimp only
      rw [if_neg nonempty, if_pos isLine.endsLine]

/-! ## Successful opening of frames -/

theorem openFrame_eq_ok_iff {frame : Option Frame} :
    (unframer below position frame).openFrame count = .ok () after ↔
      (∀ current, frame = some current → current.rest = []) ∧
        ∃ content further, below.read count = .ok content further ∧
          count ≤ content.length ∧
          after = unframer further (position + count)
            (some ⟨content, position, 0⟩) := by
  have cursorRead : (cursor below position).read count =
      exactly count position cursor (below.read count) := by
    rw [read, if_neg (Int.not_lt.mpr (Int.natCast_nonneg count)),
      Int.toNat_natCast]
  rw [openFrame]
  split
  · next unread found =>
      obtain ⟨held, nonempty⟩ := Option.filter_eq_some_iff.mp found
      constructor
      · intro success
        cases success
      · rintro ⟨empty, _⟩
        rw [empty unread held] at nonempty
        cases nonempty
  · next noUnread =>
      have empty : ∀ current, frame = some current → current.rest = [] := by
        rintro current rfl
        simpa using noUnread
      rw [cursorRead]
      constructor
      · intro success
        refine ⟨empty, ?_⟩
        cases outcome :
            exactly count position cursor (below.read count) with
        | error failure further =>
            rw [outcome] at success
            cases further <;> cases success
        | ok content further =>
            rw [outcome] at success
            obtain ⟨inner, read, long, rfl⟩ := exactly_eq_ok_iff.mp outcome
            cases success
            exact ⟨content, inner, read, long, rfl⟩
      · rintro ⟨_, content, further, read, long, rfl⟩
        rw [exactly_eq_ok_iff.mpr ⟨further, read, long, rfl⟩]

end PickleGraph.Reader
