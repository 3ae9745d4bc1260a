import PickleGraph.Proofs.Framing.Reader

/-!
# Matching readers

Two readers match if one reads a stretch of a stream in one piece and the other
one serves the same stretch from a frame or past the last frame, both through
the same number of readers of pickles inside. Whatever the first one reads
within the stretch, the second one reads too.
-/

namespace PickleGraph.Reader

variable {after : Reader} {count : Nat} {data : Bytes}

/-! ## Readers in one piece -/

/-- A reader of a file that holds these bytes from here on, with no frame. -/
def Holds (bytes : Bytes) (reader : Reader) : Prop :=
  ∃ offset position,
    reader = .unframer (.file bytes offset none) position none

theorem Holds.faces {bytes : Bytes} {reader : Reader}
    (holds : reader.Holds bytes) : reader.Faces bytes := by
  obtain ⟨offset, position, rfl⟩ := holds
  exact ⟨rfl, rfl, rfl⟩

theorem Holds.unread {bytes : Bytes} {reader : Reader}
    (holds : reader.Holds bytes) : reader.unread = bytes := by
  obtain ⟨offset, position, rfl⟩ := holds
  rfl

theorem Holds.read_eq_ok {bytes : Bytes} {reader : Reader}
    (holds : reader.Holds bytes)
    (success : reader.read count = .ok data after) :
    ∃ more, bytes = data ++ more ∧ data.length = count ∧
      after.Holds more := by
  have inRange := inRange_of_read success
  obtain ⟨offset, position, rfl⟩ := holds
  obtain ⟨further, fileRead, long, rfl⟩ :=
    read_unframed_eq_ok_iff.mp success
  rw [Reader.read, readFile, if_neg (Int.not_le.mpr inRange)] at fileRead
  dsimp only at fileRead
  rw [if_neg (Int.not_lt.mpr (Int.natCast_nonneg count)),
    Int.toNat_natCast] at fileRead
  cases fileRead
  refine ⟨bytes.drop count, (List.take_append_drop _ _).symm, ?_, _, _, rfl⟩
  rw [List.length_take] at long ⊢
  omega

theorem Holds.read {rest : Bytes} {reader : Reader}
    (holds : reader.Holds (data ++ rest)) (short : data.length < 2 ^ 63) :
    ∃ after : Reader, after.Holds rest ∧
      reader.read data.length = .ok data after := by
  obtain ⟨after, _, read⟩ := holds.faces.read short
  obtain ⟨more, same, _, afterHolds⟩ := holds.read_eq_ok read
  rw [List.append_cancel_left same]
  exact ⟨after, afterHolds, read⟩

theorem Holds.readLine_eq_ok {bytes : Bytes} {reader : Reader}
    (holds : reader.Holds bytes)
    (success : reader.readLine = .ok data after) :
    ∃ more, bytes = data ++ more ∧ IsLine data ∧ after.Holds more := by
  obtain ⟨offset, position, rfl⟩ := holds
  obtain ⟨further, fileRead, ends, rfl⟩ :=
    readLine_unframed_eq_ok_iff.mp success
  rw [Reader.readLine] at fileRead
  cases fileRead
  exact ⟨_, (splitLine_append bytes).symm, isLine_splitLine ends, _, _, rfl⟩

theorem Holds.readLine {line rest : Bytes} {reader : Reader}
    (holds : reader.Holds (line ++ 0x0A :: rest))
    (noNewline : (0x0A : UInt8) ∉ line) :
    ∃ after : Reader, after.Holds rest ∧
      reader.readLine = .ok (line ++ [0x0A]) after := by
  obtain ⟨after, _, read⟩ := holds.faces.readLine noNewline
  obtain ⟨more, same, _, afterHolds⟩ := holds.readLine_eq_ok read
  rw [List.append_cons] at same
  rw [List.append_cancel_left same]
  exact ⟨after, afterHolds, read⟩

/-! ## Readers through frames -/

/-- A reader that serves bytes and then has more of them in its frame, or none
at all, before the tail of the stream. -/
inductive Serves (tail : Bytes) : Option Bytes → Bytes → Reader → Prop
  | inside {offset position : Nat} {frame : Frame} {pending more : Bytes} :
      frame.rest = pending ++ more →
      Serves tail (some more) pending
        (unframer (file tail offset none) position (some frame))
  | outside {offset position : Nat} {frame : Option Frame}
      {pending : Bytes} :
      (∀ current, frame = some current → current.rest = []) →
      Serves tail none pending
        (unframer (file (pending ++ tail) offset none) position frame)

namespace Serves

variable {tail pending : Bytes} {more : Option Bytes} {reader : Reader}

theorem of_holds (holds : reader.Holds (pending ++ tail)) :
    Serves tail none pending reader := by
  obtain ⟨offset, position, rfl⟩ := holds
  exact .outside (by simp)

/-- What a frame has left joins what is served. -/
theorem widen {first second : Bytes}
    (serves : Serves tail (some (first ++ second)) pending reader) :
    Serves tail (some second) (pending ++ first) reader := by
  cases serves with
  | inside held => exact .inside (by rw [held, List.append_assoc])

theorem narrow {first second : Bytes}
    (serves : Serves tail (some second) (first ++ pending) reader) :
    Serves tail (some (pending ++ second)) first reader := by
  cases serves with
  | inside held => exact .inside (by rw [held, List.append_assoc])

/-- Past the last frame, what is served is taken from the tail. -/
theorem advance {first : Bytes}
    (serves : Serves (first ++ tail) none [] reader) :
    Serves tail none first reader := by
  cases serves with
  | outside empty => exact .outside empty

/-- A frame that has been read to its end is passed. -/
theorem leave {first : Bytes}
    (serves : Serves (first ++ tail) (some []) [] reader) :
    Serves tail none first reader := by
  cases serves with
  | inside held =>
      refine .outside ?_
      rintro _ ⟨⟩
      exact held

/-- Past the last frame, the first byte that is read removes the frame. -/
theorem read_outside (serves : Serves tail none (data ++ pending) reader)
    (nonempty : data ≠ []) (short : data.length < 2 ^ 63) :
    ∃ after : Reader, reader.read data.length = .ok data after ∧
      after.Holds (pending ++ tail) := by
  have inRange := lt_countLimit_iff.mpr short
  cases serves with
  | @outside offset position frame _ empty =>
      have held : (unframer (file (data ++ pending ++ tail) offset none)
          position none).Holds (data ++ (pending ++ tail)) := by
        rw [← List.append_assoc]
        exact ⟨offset, position, rfl⟩
      obtain ⟨after, holds, read⟩ := held.read short
      cases frame with
      | none => exact ⟨after, read, holds⟩
      | some current =>
          refine ⟨after, (read_framed_eq_ok_iff inRange).mpr
            (.inl ⟨empty current rfl, ?_, read⟩), holds⟩
          exact fun length => nonempty (List.length_eq_zero_iff.mp length)

theorem read (serves : Serves tail more (data ++ pending) reader)
    (short : data.length < 2 ^ 63) :
    ∃ after, reader.read data.length = .ok data after ∧
      Serves tail more pending after := by
  have inRange := lt_countLimit_iff.mpr short
  by_cases nothing : data = []
  · subst nothing
    cases serves with
    | @inside offset position frame _ more held =>
        exact ⟨_, (read_framed_eq_ok_iff inRange).mpr
          (.inr ⟨_, (List.nil_append _).symm, rfl, rfl⟩), .inside held⟩
    | @outside offset position frame _ empty =>
        cases frame with
        | none =>
            have held : (unframer (file ([] ++ pending ++ tail) offset none)
                position none).Holds ([] ++ (pending ++ tail)) :=
              ⟨offset, position, rfl⟩
            obtain ⟨after, holds, read⟩ := held.read short
            exact ⟨after, read, of_holds holds⟩
        | some current =>
            refine ⟨_, (read_framed_eq_ok_iff inRange).mpr
              (.inr ⟨_, (List.nil_append _).symm, rfl, rfl⟩),
              .outside ?_⟩
            rintro _ ⟨⟩
            exact empty current rfl
  · cases serves with
    | @inside offset position frame _ more held =>
        rw [List.append_assoc] at held
        refine ⟨_, (read_framed_eq_ok_iff inRange).mpr
          (.inr ⟨_, held, rfl, rfl⟩), .inside ?_⟩
        rw [Frame.skip, held]
        exact List.drop_left
    | outside empty =>
        obtain ⟨after, read, holds⟩ :=
          (Serves.outside empty).read_outside nothing short
        exact ⟨after, read, of_holds holds⟩

theorem readLine (serves : Serves tail more (data ++ pending) reader)
    (isLine : IsLine data) :
    ∃ after, reader.readLine = .ok data after ∧
      Serves tail more pending after := by
  cases serves with
  | @inside offset position frame _ more held =>
      rw [List.append_assoc] at held
      refine ⟨_, readLine_framed_eq_ok_iff.mpr
        (.inr ⟨_, held, isLine, rfl⟩), .inside ?_⟩
      rw [Frame.skip, held]
      exact List.drop_left
  | @outside offset position frame _ empty =>
      obtain ⟨content, rfl, noNewline⟩ := isLine
      have held : (unframer
          (file (content ++ [0x0A] ++ pending ++ tail) offset none)
          position none).Holds (content ++ 0x0A :: (pending ++ tail)) := by
        refine ⟨offset, position, ?_⟩
        simp only [List.append_assoc, List.cons_append, List.nil_append]
      obtain ⟨after, holds, read⟩ := held.readLine noNewline
      refine ⟨after, ?_, of_holds holds⟩
      cases frame with
      | none => exact read
      | some current =>
          exact readLine_framed_eq_ok_iff.mpr
            (.inl ⟨empty current rfl, read⟩)

end Serves

/-- A frame is opened around what it is to hold. -/
theorem Holds.openFrame {content tail : Bytes} {reader : Reader}
    (holds : reader.Holds (content ++ tail))
    (short : content.length < 2 ^ 63) :
    ∃ after, reader.openFrame content.length = .ok () after ∧
      Serves tail (some []) content after := by
  obtain ⟨offset, position, rfl⟩ := holds
  exact ⟨_, openFrame_eq_ok_iff.mpr ⟨by simp, content, _,
    read_file offset short, Nat.le_refl _, rfl⟩,
    .inside (List.append_nil content).symm⟩

/-! ## Matching -/

/-- The first reader reads a stretch before `rest` in one piece, the second one
serves it through frames. Both may stand below readers of pickles inside, whose
frames hold the same. -/
inductive Matches (rest tail : Bytes) (more : Option Bytes) :
    Nat → Reader → Reader → Prop
  | base {pending : Bytes} {whole framed : Reader} :
      whole.Holds (pending ++ rest) →
      Serves tail more pending framed →
      Matches rest tail more 0 whole framed
  | nested {depth position place : Nat} {whole framed : Reader}
      {frame other : Option Frame} :
      Matches rest tail more depth whole framed →
      frame.map (·.rest) = other.map (·.rest) →
      Matches rest tail more (depth + 1)
        (unframer whole position frame) (unframer framed place other)

namespace Matches

variable {rest tail : Bytes} {more : Option Bytes} {depth : Nat}
variable {whole framed : Reader}

/-- What is taken from the stretch leaves less of the stretch. -/
theorem exists_rest {pending left : Bytes}
    (bytes : pending ++ rest = data ++ left) (ends : rest <:+ left) :
    ∃ later, pending = data ++ later ∧ left = later ++ rest := by
  obtain ⟨later, rfl⟩ := ends
  rw [← List.append_assoc] at bytes
  exact ⟨later, List.append_cancel_right bytes, rfl⟩

theorem frames_cases {frame other : Option Frame}
    (frames : frame.map (·.rest) = other.map (·.rest)) :
    frame = none ∧ other = none ∨
      ∃ first second, frame = some first ∧ other = some second ∧
        first.rest = second.rest := by
  cases frame with
  | none => exact .inl ⟨rfl, Option.map_eq_none_iff.mp frames.symm⟩
  | some first =>
      obtain ⟨second, rfl, same⟩ := Option.map_eq_some_iff.mp frames.symm
      exact .inr ⟨first, second, rfl, rfl, same.symm⟩

theorem read (related : Matches rest tail more depth whole framed)
    (success : whole.read count = .ok data after)
    (ends : rest <:+ after.unread) :
    ∃ further, framed.read count = .ok data further ∧
      Matches rest tail more depth after further := by
  have inRange := inRange_of_read success
  induction related generalizing data after with
  | base holds serves =>
      obtain ⟨left, bytes, rfl, leftHolds⟩ := holds.read_eq_ok success
      rw [leftHolds.unread] at ends
      obtain ⟨later, rfl, rfl⟩ := exists_rest bytes ends
      obtain ⟨further, read, laterServes⟩ :=
        serves.read (lt_countLimit_iff.mp inRange)
      exact ⟨further, read, .base leftHolds laterServes⟩
  | @nested depth position place whole framed frame other related frames
      inductionHypothesis =>
      have bare : ∀ {after : Reader},
          (unframer whole position none).read count = .ok data after →
          rest <:+ after.unread →
          ∃ further,
            (unframer framed place none).read count = .ok data further ∧
              Matches rest tail more (depth + 1) after further := by
        intro after success ends
        obtain ⟨middle, below, long, rfl⟩ :=
          read_unframed_eq_ok_iff.mp success
        obtain ⟨further, read, still⟩ := inductionHypothesis below ends
        exact ⟨_, read_unframed_eq_ok_iff.mpr ⟨further, read, long, rfl⟩,
          .nested still rfl⟩
      rcases frames_cases frames with
        ⟨rfl, rfl⟩ | ⟨first, second, rfl, rfl, same⟩
      · exact bare success ends
      · rcases (read_framed_eq_ok_iff inRange).mp success with
          ⟨empty, positive, below⟩ | ⟨more, held, length, rfl⟩
        · obtain ⟨further, read, still⟩ := bare below ends
          exact ⟨further, (read_framed_eq_ok_iff inRange).mpr
            (.inl ⟨same ▸ empty, positive, read⟩), still⟩
        · refine ⟨_, (read_framed_eq_ok_iff inRange).mpr
            (.inr ⟨more, same ▸ held, length, rfl⟩), .nested related ?_⟩
          exact congrArg (fun rest => some (rest.drop count)) same

theorem readLine (related : Matches rest tail more depth whole framed)
    (success : whole.readLine = .ok data after)
    (ends : rest <:+ after.unread) :
    ∃ further, framed.readLine = .ok data further ∧
      Matches rest tail more depth after further := by
  induction related generalizing data after with
  | base holds serves =>
      obtain ⟨left, bytes, isLine, leftHolds⟩ := holds.readLine_eq_ok success
      rw [leftHolds.unread] at ends
      obtain ⟨later, rfl, rfl⟩ := exists_rest bytes ends
      obtain ⟨further, read, laterServes⟩ := serves.readLine isLine
      exact ⟨further, read, .base leftHolds laterServes⟩
  | @nested depth position place whole framed frame other related frames
      inductionHypothesis =>
      have bare : ∀ {after : Reader},
          (unframer whole position none).readLine = .ok data after →
          rest <:+ after.unread →
          ∃ further,
            (unframer framed place none).readLine = .ok data further ∧
              Matches rest tail more (depth + 1) after further := by
        intro after success ends
        obtain ⟨middle, below, isLine, rfl⟩ :=
          readLine_unframed_eq_ok_iff.mp success
        obtain ⟨further, read, still⟩ := inductionHypothesis below ends
        exact ⟨_, readLine_unframed_eq_ok_iff.mpr
          ⟨further, read, isLine, rfl⟩, .nested still rfl⟩
      rcases frames_cases frames with
        ⟨rfl, rfl⟩ | ⟨first, second, rfl, rfl, same⟩
      · exact bare success ends
      · rcases readLine_framed_eq_ok_iff.mp success with
          ⟨empty, below⟩ | ⟨more, held, isLine, rfl⟩
        · obtain ⟨further, read, still⟩ := bare below ends
          exact ⟨further, readLine_framed_eq_ok_iff.mpr
            (.inl ⟨same ▸ empty, read⟩), still⟩
        · refine ⟨_, readLine_framed_eq_ok_iff.mpr
            (.inr ⟨more, same ▸ held, isLine, rfl⟩), .nested related ?_⟩
          exact congrArg (fun rest => some (rest.drop data.length)) same

/-- Frames are opened by readers of pickles inside only. -/
theorem openFrame
    (related : Matches rest tail more (depth + 1) whole framed)
    (success : whole.openFrame count = .ok () after)
    (ends : rest <:+ after.unread) :
    ∃ further, framed.openFrame count = .ok () further ∧
      Matches rest tail more (depth + 1) after further := by
  cases related with
  | @nested _ position place whole framed frame other related frames =>
      obtain ⟨empty, content, middle, below, long, rfl⟩ :=
        openFrame_eq_ok_iff.mp success
      obtain ⟨further, read, still⟩ := related.read below ends
      have otherEmpty :
          ∀ current, other = some current → current.rest = [] := by
        rintro current rfl
        rcases frames_cases frames with
          ⟨_, absent⟩ | ⟨first, second, rfl, held, same⟩
        · cases absent
        · cases held
          exact same ▸ empty first rfl
      exact ⟨_, openFrame_eq_ok_iff.mpr
        ⟨otherEmpty, content, further, read, long, rfl⟩, .nested still rfl⟩

end Matches

end PickleGraph.Reader
