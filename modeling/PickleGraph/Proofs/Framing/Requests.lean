import Mathlib.Data.List.Forall2
import PickleGraph.Proofs.Framing.Reader

/-!
# What an unframer hands out

Whatever an unframer on a byte string is asked for, it hands out the bytes from
the first one on, each of them once. It knows how many it has handed out, and
the cursor is ahead of it by what is left of the frame.
-/

namespace PickleGraph.Reader

open Actions

/-- The unframer on a byte string has handed out the first part of it. What the
frame holds comes next, and the rest has not been read yet. -/
inductive HasGiven (content : Bytes) : (given : Bytes) → Reader → Prop
  | bare {given rest : Bytes} (offset : Nat) :
      given ++ rest = content →
      HasGiven content given
        (unframer (file rest offset none) given.length none)
  | framed {given rest : Bytes} {frame : Frame} (offset : Nat) :
      given ++ (frame.rest ++ rest) = content →
      frame.tell = given.length →
      HasGiven content given
        (unframer (file rest offset none)
          (given.length + frame.rest.length) (some frame))

/-- How many bytes a frame holds that have not been handed out. -/
def ahead : Reader → Nat
  | unframer _ _ (some frame) => frame.rest.length
  | _ => 0

theorem hasGiven_ofBytes (content : Bytes) :
    HasGiven content [] (unframer (ofBytes content) 0 none) :=
  .bare 0 rfl

/-! ## Files -/

theorem readFile_eq_ok {count : Nat} {rest data : Bytes} {offset : Nat}
    {after : Reader}
    (success : (file rest offset none).read count = .ok data after) :
    ∃ more further, rest = data ++ more ∧ data.length ≤ count ∧
      after = file more further none := by
  have inRange := inRange_of_read success
  have natural : ¬ (count : Int) < 0 := by omega
  rw [read, readFile, if_neg (Int.not_le.mpr inRange)] at success
  dsimp only at success
  rw [if_neg natural, Int.toNat_natCast] at success
  cases success
  exact ⟨rest.drop count, _, (List.take_append_drop count rest).symm,
    List.length_take_le count rest, rfl⟩

theorem readLineFile_eq_ok {rest line : Bytes} {offset : Nat}
    {after : Reader}
    (success : (file rest offset none).readLine = .ok line after) :
    line = (splitLine rest).1 ∧
      ∃ further, after = file (splitLine rest).2 further none := by
  rw [readLine] at success
  cases success
  exact ⟨rfl, _, rfl⟩

/-! ## Unframers -/

namespace HasGiven

variable {content given data : Bytes} {reader after : Reader}

theorem bare_of_eq {rest : Bytes} {position : Nat} (offset : Nat)
    (whole : given ++ rest = content) (length : given.length = position) :
    HasGiven content given (unframer (file rest offset none) position none) :=
  length ▸ .bare offset whole

theorem framed_of_eq {rest : Bytes} {position : Nat} {frame : Frame}
    (offset : Nat) (whole : given ++ (frame.rest ++ rest) = content)
    (tell : frame.tell = given.length)
    (length : given.length + frame.rest.length = position) :
    HasGiven content given
      (unframer (file rest offset none) position (some frame)) :=
  length ▸ .framed offset whole tell

theorem tell? (hasGiven : HasGiven content given reader) :
    reader.tell? = some given.length := by
  cases hasGiven with
  | bare offset whole => rfl
  | framed offset whole tell => exact congrArg some tell

theorem position (hasGiven : HasGiven content given reader) :
    reader.position = given.length + reader.ahead := by
  cases hasGiven with
  | bare offset whole => rfl
  | framed offset whole tell => rfl

/-- What has been handed out is the first part of the byte string. -/
theorem exists_rest (hasGiven : HasGiven content given reader) :
    ∃ rest, given ++ rest = content ∧ rest.length = reader.remaining := by
  cases hasGiven with
  | @bare rest offset whole => exact ⟨rest, whole, rfl⟩
  | @framed rest frame offset whole tell =>
      refine ⟨frame.rest ++ rest, whole, ?_⟩
      rw [List.length_append, Nat.add_comm]
      rfl

/-- An unframer goes on behind a frame that has been read to its end. -/
theorem leave {below : Reader} {position : Nat} {frame : Frame}
    (hasGiven :
      HasGiven content given (unframer below position (some frame)))
    (empty : frame.rest = []) :
    HasGiven content given (unframer below position none) := by
  cases hasGiven with
  | framed offset whole tell =>
      rw [empty] at whole ⊢
      exact .bare offset whole

/-- An unframer moves past bytes at the head of its frame. -/
theorem advance {below : Reader} {position : Nat} {frame : Frame}
    {more : Bytes}
    (hasGiven :
      HasGiven content given (unframer below position (some frame)))
    (held : frame.rest = data ++ more) :
    HasGiven content (given ++ data)
      (unframer below position (some (frame.skip data.length))) := by
  cases hasGiven with
  | framed offset whole tell =>
      have left : (frame.skip data.length).rest = more := by
        rw [Frame.skip, held, List.drop_left]
      refine framed_of_eq offset ?_ ?_ ?_
      · rw [left, ← whole, held]
        simp only [List.append_assoc]
      · rw [List.length_append, ← tell]
        exact (Nat.add_assoc _ _ _).symm
      · rw [left, held]
        simp only [List.length_append]
        omega

/-! ### Reading bytes -/

theorem read_bare {below : Reader} {position count : Nat}
    (hasGiven : HasGiven content given (unframer below position none))
    (success :
      (unframer below position none).read count = .ok data after) :
    data.length = count ∧ HasGiven content (given ++ data) after := by
  cases hasGiven with
  | bare offset whole =>
      obtain ⟨further, read, long, rfl⟩ := read_unframed_eq_ok_iff.mp success
      obtain ⟨more, place, rfl, short, rfl⟩ := readFile_eq_ok read
      have exact_ : data.length = count := Nat.le_antisymm short long
      refine ⟨exact_, bare_of_eq place ?_ ?_⟩
      · rw [← whole, List.append_assoc]
      · rw [List.length_append, exact_]

/-- A successful reading hands out exactly the bytes that come next. -/
theorem read (hasGiven : HasGiven content given reader) {count : Nat}
    (success : reader.read count = .ok data after) :
    data.length = count ∧ HasGiven content (given ++ data) after := by
  have inRange := inRange_of_read success
  cases reader with
  | file | cursor => cases hasGiven
  | unframer below position frame =>
      cases frame with
      | none => exact hasGiven.read_bare success
      | some frame =>
          rcases (read_framed_eq_ok_iff inRange).mp success with
            ⟨empty, _, fromBelow⟩ | ⟨more, held, rfl, rfl⟩
          · exact (hasGiven.leave empty).read_bare fromBelow
          · exact ⟨rfl, hasGiven.advance held⟩

/-! ### Reading lines -/

theorem readLine_bare {below : Reader} {position : Nat}
    (hasGiven : HasGiven content given (unframer below position none))
    (success : (unframer below position none).readLine = .ok data after) :
    IsLine data ∧ HasGiven content (given ++ data) after := by
  cases hasGiven with
  | @bare rest offset whole =>
      obtain ⟨further, read, ends, rfl⟩ :=
        readLine_unframed_eq_ok_iff.mp success
      obtain ⟨rfl, place, rfl⟩ := readLineFile_eq_ok read
      refine ⟨isLine_splitLine ends, bare_of_eq place ?_ ?_⟩
      · rw [List.append_assoc, splitLine_append, whole]
      · rw [List.length_append]

/-- A line that is read is the one that comes next, with its newline. -/
theorem readLine (hasGiven : HasGiven content given reader)
    (success : reader.readLine = .ok data after) :
    IsLine data ∧ HasGiven content (given ++ data) after := by
  cases reader with
  | file | cursor => cases hasGiven
  | unframer below position frame =>
      cases frame with
      | none => exact hasGiven.readLine_bare success
      | some frame =>
          rcases readLine_framed_eq_ok_iff.mp success with
            ⟨empty, fromBelow⟩ | ⟨more, held, isLine, rfl⟩
          · exact (hasGiven.leave empty).readLine_bare fromBelow
          · exact ⟨isLine, hasGiven.advance held⟩

/-! ### Opening frames -/

/-- A frame that is opened hands out nothing. -/
theorem openFrame (hasGiven : HasGiven content given reader) {size : Nat}
    (success : reader.openFrame size = .ok () after) :
    HasGiven content given after := by
  cases reader with
  | file | cursor => cases hasGiven
  | unframer below position frame =>
      obtain ⟨spent, held, further, read, long, rfl⟩ :=
        openFrame_eq_ok_iff.mp success
      have bare : HasGiven content given (unframer below position none) := by
        cases frame with
        | none => exact hasGiven
        | some frame => exact hasGiven.leave (spent frame rfl)
      cases bare with
      | bare offset whole =>
          obtain ⟨more, place, rfl, short, rfl⟩ := readFile_eq_ok read
          have exact_ : held.length = size := Nat.le_antisymm short long
          refine framed_of_eq place whole ?_ ?_
          · rfl
          · rw [exact_]

end HasGiven

/-- A frame has no negative size. -/
theorem exists_size {below after : Reader} {position : Nat}
    {frame : Option Frame} {size : Int}
    (success : (unframer below position frame).openFrame size =
      .ok () after) : ∃ count : Nat, size = count := by
  by_cases negative : size < 0
  · rw [Reader.openFrame] at success
    split at success
    · cases success
    · rw [Reader.read, if_pos negative] at success
      cases success
  · exact ⟨size.toNat, (Int.toNat_of_nonneg (Int.not_lt.mp negative)).symm⟩

/-! ## Requests -/

/-- What an unframer is asked for. -/
inductive Request
  | read (count : Nat)
  | readInto (buffer : Bytes)
  | readLine
  | openFrame (size : Int)

/-- The bytes that are handed out for a request. -/
def serve : Request → Reading Bytes
  | .read count => (Reader.read count : Reading Bytes)
  | .readInto buffer => do
      let (_, filled) ← (Reader.readInto buffer : Reading (Nat × Bytes))
      return filled
  | .readLine => (Reader.readLine : Reading Bytes)
  | .openFrame size => do
      Reader.openFrame size
      return []

/-- The bytes are such as were asked for. -/
def Request.Admits : Request → Bytes → Prop
  | .read count, data => data.length = count
  | .readInto buffer, data => data.length = buffer.length
  | .readLine, data => IsLine data
  | .openFrame _, data => data = []

theorem HasGiven.serve {content given data : Bytes} {reader after : Reader}
    (hasGiven : HasGiven content given reader) {request : Request}
    (success : serve request reader = .ok data after) :
    request.Admits data ∧ HasGiven content (given ++ data) after := by
  cases request with
  | read count => exact hasGiven.read success
  | readInto buffer =>
      obtain ⟨⟨count, filled⟩, middle, filling, done⟩ :=
        bind_eq_ok_iff.mp success
      cases done
      unfold readInto at filling
      split at filling
      · next outcome =>
          cases filling
          exact hasGiven.read outcome
      · cases filling
  | readLine => exact hasGiven.readLine success
  | openFrame size =>
      obtain ⟨_, middle, opened, done⟩ := bind_eq_ok_iff.mp success
      cases done
      cases reader with
      | file | cursor => cases hasGiven
      | unframer below position frame =>
          obtain ⟨count, rfl⟩ := exists_size opened
          rw [List.append_nil]
          exact ⟨rfl, hasGiven.openFrame opened⟩

theorem HasGiven.serveAll {content given : Bytes} {reader after : Reader}
    (hasGiven : HasGiven content given reader) {requests : List Request}
    {answers : List Bytes}
    (success : requests.mapM Reader.serve reader = .ok answers after) :
    List.Forall₂ Request.Admits requests answers ∧
      HasGiven content (given ++ answers.flatten) after := by
  induction requests generalizing given reader answers with
  | nil =>
      rw [List.mapM_nil] at success
      cases success
      exact ⟨.nil, by rwa [List.flatten_nil, List.append_nil]⟩
  | cons request rest inductionHypothesis =>
      rw [List.mapM_cons] at success
      obtain ⟨data, middle, served, success⟩ := bind_eq_ok_iff.mp success
      obtain ⟨others, last, servedRest, done⟩ := bind_eq_ok_iff.mp success
      cases done
      obtain ⟨admits, middleGiven⟩ := hasGiven.serve served
      obtain ⟨admitsRest, lastGiven⟩ :=
        inductionHypothesis middleGiven servedRest
      rw [List.append_assoc] at lastGiven
      exact ⟨.cons admits admitsRest, lastGiven⟩

/-- What an unframer on a byte string hands out, request by request, is the
first part of the byte string, up to the place that it tells. The cursor is
ahead by what is left of the frame. Every reading gives as many bytes as were
asked for, and every line ends with its only newline. -/
theorem serveAll_ofBytes (content : Bytes) (requests : List Request)
    {answers : List Bytes} {after : Reader}
    (success : requests.mapM serve (unframer (ofBytes content) 0 none) =
      .ok answers after) :
    ∃ place, after.tell? = some place ∧ place ≤ content.length ∧
      answers.flatten = content.take place ∧
      after.position = place + after.ahead ∧
      List.Forall₂ Request.Admits requests answers := by
  obtain ⟨admits, hasGiven⟩ := (hasGiven_ofBytes content).serveAll success
  rw [List.nil_append] at hasGiven
  obtain ⟨rest, whole, _⟩ := hasGiven.exists_rest
  refine ⟨_, hasGiven.tell?, ?_, ?_, hasGiven.position, admits⟩
  · rw [← whole, List.length_append]
    exact Nat.le_add_right _ _
  · rw [← whole, List.take_left]

/-- A line, a frame that is read to its end and beyond, an empty one, and one of
which a byte is left. -/
def severalRequests : List Request :=
  [.readLine, .openFrame 2, .read 2, .read 0, .readInto [0], .openFrame 0,
    .openFrame 2, .read 1]

theorem serveAll_severalRequests :
    ∃ answers after, severalRequests.mapM serve
        (unframer (ofBytes [0x41, 0x0A, 0x42, 0x43, 0x44, 0x45, 0x46]) 0
          none) = .ok answers after ∧
      ∃ place, after.tell? = some place ∧ place ≤ 7 ∧
        answers.flatten =
          [0x41, 0x0A, 0x42, 0x43, 0x44, 0x45, 0x46].take place ∧
        after.position = place + after.ahead ∧
        List.Forall₂ Request.Admits severalRequests answers := by
  have served : severalRequests.mapM serve
      (unframer (ofBytes [0x41, 0x0A, 0x42, 0x43, 0x44, 0x45, 0x46]) 0
        none) =
      .ok [[0x41, 0x0A], [], [0x42, 0x43], [], [0x44], [], [], [0x45]]
        (unframer (file [] 7 none) 7 (some ⟨[0x46], 5, 1⟩)) := rfl
  exact ⟨_, _, served, serveAll_ofBytes _ severalRequests served⟩

end PickleGraph.Reader
