import PickleGraph.Proofs.Framing.Reader

/-!
# Readers at other places

The bytes of a stream may stand within a longer one: there are others before
them, so that their places are further on, and others behind them. Whatever is
read from the bytes alone is read from there, and the frames that are opened
hold the same.
-/

namespace PickleGraph.Reader

open Actions

/-- Whatever is read from the first one of two related readers is read from the
second one. -/
structure IsFollowed (related : Reader → Reader → Prop) : Prop where
  read : ∀ count : Nat,
    Mirrors related id (Reader.read count) (Reader.read count)
  readLine : Mirrors related id Reader.readLine Reader.readLine
  openFrame : ∀ size : Nat,
    Mirrors related id (Reader.openFrame size) (Reader.openFrame size)

/-- Whatever is read in full is read from the second one. A file gives less than
it was asked for where it ends. -/
structure IsFollowedInFull (related : Reader → Reader → Prop) : Prop where
  read : ∀ {reader other after : Reader} {count : Nat} {data : Bytes},
    related reader other → reader.read count = .ok data after →
    count ≤ data.length →
    ∃ later, other.read count = .ok data later ∧ related after later
  readLine : ∀ {reader other after : Reader} {line : Bytes},
    related reader other → reader.readLine = .ok line after →
    endsLine line = true →
    ∃ later, other.readLine = .ok line later ∧ related after later

variable {related : Reader → Reader → Prop}

theorem IsFollowed.inFull (followed : IsFollowed related) :
    IsFollowedInFull related where
  read start success _ := followed.read _ _ _ _ _ start success
  readLine start success _ := followed.readLine _ _ _ _ start success

theorem isFollowed_eq : IsFollowed Eq where
  read := by
    rintro count reader _ data after rfl success
    exact ⟨after, success, rfl⟩
  readLine := by
    rintro reader _ data after rfl success
    exact ⟨after, success, rfl⟩
  openFrame := by
    rintro size reader _ result after rfl success
    exact ⟨after, success, rfl⟩

/-! ## Files -/

/-- Files of the same bytes, the second one with more behind them. -/
inductive Precedes (more : Bytes) : Reader → Reader → Prop
  | files (rest : Bytes) (offset place : Nat) :
      Precedes more (file rest offset none) (file (rest ++ more) place none)

theorem isFollowed_precedes (more : Bytes) :
    IsFollowedInFull (Precedes more) where
  read := by
    rintro _ _ after count data ⟨rest, offset, place⟩ success enough
    have natural : ¬ (count : Int) < 0 := by omega
    have inRange := Int.not_le.mpr (inRange_of_read success)
    rw [Reader.read, readFile, if_neg inRange] at success
    dsimp only at success
    rw [if_neg natural, Int.toNat_natCast] at success
    cases success
    rw [List.length_take] at enough
    have long : count ≤ rest.length := by omega
    refine ⟨_, ?_, .files (rest.drop count) _ (place + count)⟩
    rw [Reader.read, readFile, if_neg inRange]
    dsimp only
    rw [if_neg natural, Int.toNat_natCast, List.take_append_of_le_length long,
      List.drop_append_of_le_length long, List.length_take_of_le long]
  readLine := by
    rintro _ _ after line ⟨rest, offset, place⟩ success ends
    rw [Reader.readLine] at success
    cases success
    have split := (isLine_splitLine ends).splitLine_append
      ((splitLine rest).2 ++ more)
    rw [← List.append_assoc, splitLine_append] at split
    refine ⟨_, ?_, .files (splitLine rest).2 _
      (place + (splitLine rest).1.length)⟩
    rw [Reader.readLine, split]

/-! ## Readers of pickles -/

/-- Readers of pickles on related ones, the second one this much further on.
Their frames have the same left. -/
inductive Above (below : Reader → Reader → Prop) (start : Nat) :
    Reader → Reader → Prop
  | unframers {reader other : Reader} {position : Nat}
      {frame further : Option Frame} :
      below reader other →
      frame.map (·.rest) = further.map (·.rest) →
      Above below start (unframer reader position frame)
        (unframer other (start + position) further)

namespace Above

variable {below : Reader → Reader → Prop} {start : Nat}
variable {reader other : Reader}

theorem beneath (above : Above below start reader other) :
    below reader.beneath other.beneath := by
  obtain ⟨related, _⟩ := above
  exact related

/-- Pickles inside are read from the readers of the outer ones. -/
theorem inside (related : below reader other) :
    Above below 0 (unframer reader 0 none) (unframer other 0 none) :=
  .unframers related rfl

variable (followed : IsFollowedInFull below)

include followed

theorem read_unframed {first second after : Reader} {place count : Nat}
    {data : Bytes} (related : below first second)
    (success : (unframer first place none).read count = .ok data after) :
    ∃ later, (unframer second (start + place) none).read count =
      .ok data later ∧ Above below start after later := by
  obtain ⟨further, read, enough, rfl⟩ := read_unframed_eq_ok_iff.mp success
  obtain ⟨later, readAgain, still⟩ := followed.read related read enough
  refine ⟨_, read_unframed_eq_ok_iff.mpr ⟨later, readAgain, enough, rfl⟩, ?_⟩
  rw [Nat.add_assoc]
  exact .unframers still rfl

theorem readLine_unframed {first second after : Reader} {place : Nat}
    {line : Bytes} (related : below first second)
    (success : (unframer first place none).readLine = .ok line after) :
    ∃ later, (unframer second (start + place) none).readLine =
      .ok line later ∧ Above below start after later := by
  obtain ⟨further, read, ends, rfl⟩ := readLine_unframed_eq_ok_iff.mp success
  obtain ⟨later, readAgain, still⟩ := followed.readLine related read ends
  refine ⟨_, readLine_unframed_eq_ok_iff.mpr ⟨later, readAgain, ends, rfl⟩, ?_⟩
  rw [Nat.add_assoc]
  exact .unframers still rfl

/-- Reading through one more reader of a pickle inside is followed, too. -/
theorem isFollowed : IsFollowed (Above below start) where
  read := by
    rintro count _ _ data after ⟨related, same⟩ success
    next first second place frame further =>
    cases frame with
    | none =>
        obtain rfl : further = none := by simpa using same.symm
        exact read_unframed followed related success
    | some frame =>
        obtain ⟨frameAgain, rfl, sameRest⟩ := Option.map_eq_some_iff.mp same.symm
        have inRange := inRange_of_read success
        rcases (read_framed_eq_ok_iff inRange).mp success with
          ⟨empty, positive, bare⟩ | ⟨more, rest, length, rfl⟩
        · obtain ⟨later, read, still⟩ :=
            read_unframed followed related bare
          exact ⟨later, (read_framed_eq_ok_iff inRange).mpr
            (.inl ⟨sameRest.trans empty, positive, read⟩), still⟩
        · refine ⟨_, (read_framed_eq_ok_iff inRange).mpr
            (.inr ⟨more, sameRest.trans rest, length, rfl⟩),
            .unframers related ?_⟩
          exact congrArg (fun rest => some (rest.drop count)) sameRest.symm
  readLine := by
    rintro _ _ line after ⟨related, same⟩ success
    next first second place frame further =>
    cases frame with
    | none =>
        obtain rfl : further = none := by simpa using same.symm
        exact readLine_unframed followed related success
    | some frame =>
        obtain ⟨frameAgain, rfl, sameRest⟩ := Option.map_eq_some_iff.mp same.symm
        rcases readLine_framed_eq_ok_iff.mp success with
          ⟨empty, bare⟩ | ⟨more, rest, isLine, rfl⟩
        · obtain ⟨later, read, still⟩ :=
            readLine_unframed followed related bare
          exact ⟨later, readLine_framed_eq_ok_iff.mpr
            (.inl ⟨sameRest.trans empty, read⟩), still⟩
        · refine ⟨_, readLine_framed_eq_ok_iff.mpr
            (.inr ⟨more, sameRest.trans rest, isLine, rfl⟩),
            .unframers related ?_⟩
          exact congrArg (fun rest => some (rest.drop line.length))
            sameRest.symm
  openFrame := by
    rintro size _ _ _ after ⟨related, same⟩ success
    next first second place frame further =>
    obtain ⟨empty, content, middle, read, enough, rfl⟩ :=
      openFrame_eq_ok_iff.mp success
    obtain ⟨later, readAgain, still⟩ := followed.read related read enough
    have emptyAgain : ∀ current, further = some current →
        current.rest = [] := by
      rintro current rfl
      obtain ⟨opened, rfl, sameRest⟩ := Option.map_eq_some_iff.mp same
      exact sameRest.symm.trans (empty opened rfl)
    refine ⟨_, openFrame_eq_ok_iff.mpr
      ⟨emptyAgain, content, later, readAgain, enough, rfl⟩, ?_⟩
    rw [Nat.add_assoc]
    exact .unframers still rfl

end Above

end PickleGraph.Reader
