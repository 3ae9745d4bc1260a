import PickleGraph.Machine.Run
import PickleGraph.Proofs.Actions

/-!
# What readers have left

A reader never gets more to hand out. What it hands out is taken from what
remains, and the file at the bottom is only ever read forward.
-/

namespace PickleGraph.Reader

open Actions

/-- What is left of the file that a reader stands on. -/
def unread : Reader → Bytes
  | file rest _ _ => rest
  | cursor below _ | unframer below _ _ => below.unread

/-- A reader that has handed out `data` since, and may have lost more. -/
structure Spent (data : Bytes) (before after : Reader) : Prop where
  remaining : after.remaining + data.length ≤ before.remaining
  unread : after.unread <:+ before.unread

/-- A reader that has been read on. -/
abbrev ReadOn (before after : Reader) : Prop :=
  Spent [] before after

/-- What a result says about the reader it leaves behind. -/
def SpentBy (before : Reader) :
    EStateM.Result Failure Reader Bytes → Prop
  | .ok data after => Spent data before after
  | .error _ after => ReadOn before after

namespace Spent

theorem refl (reader : Reader) : ReadOn reader reader :=
  ⟨Nat.le_refl _, List.suffix_rfl⟩

theorem readOn {data : Bytes} {before after : Reader}
    (spent : Spent data before after) : ReadOn before after :=
  ⟨by have := spent.remaining; simp only [List.length_nil]; omega,
    spent.unread⟩

theorem trans {data : Bytes} {before middle after : Reader}
    (first : ReadOn before middle) (second : Spent data middle after) :
    Spent data before after :=
  ⟨by
      have := first.remaining
      have := second.remaining
      simp only [List.length_nil] at *
      omega,
    second.unread.trans first.unread⟩

end Spent

/-! ## Reading bytes -/

/-- Bytes that are there are read, however the file ends. -/
theorem read_file {data rest : Bytes} {ending : Option SourceFault}
    (offset : Nat) (short : data.length < 2 ^ 63) :
    (file (data ++ rest) offset ending).read data.length =
      .ok data (file rest (offset + data.length) ending) := by
  have inRange : ¬ countLimit ≤ (data.length : Int) := by
    unfold countLimit
    omega
  have natural : ¬ (data.length : Int) < 0 := by omega
  rw [Reader.read, readFile, if_neg inRange]
  simp only [if_neg natural, Int.toNat_natCast, List.take_left',
    List.drop_left']
  cases ending with
  | none => rfl
  | some fault => simp [natural]

theorem exactly_of_ok {data : Bytes} {position : Nat}
    (rebuild : Reader → Nat → Reader) (below : Reader) :
    exactly data.length position rebuild (.ok data below) =
      .ok data (rebuild below (position + data.length)) := by
  unfold exactly
  simp only [Nat.lt_irrefl, if_false]

theorem readFile_spent
    (count : Int) (rest : Bytes) (offset : Nat)
    (ending : Option SourceFault) :
    SpentBy (file rest offset ending) (readFile count rest offset ending) := by
  simp only [readFile]
  generalize (if count < 0 then rest.length else count.toNat) = wanted
  split
  · exact Spent.refl _
  · have spent : Spent (rest.take wanted) (file rest offset ending)
        (file (rest.drop wanted) (offset + (rest.take wanted).length)
          ending) := by
      constructor
      · simp only [remaining, List.length_drop, List.length_take]
        omega
      · exact List.drop_suffix wanted rest
    cases ending with
    | none => exact spent
    | some fault =>
        dsimp only
        split
        · exact spent.readOn
        · exact spent

/-- A cursor spends what is below it. -/
theorem exactly_spent
    {wanted position : Nat} {rebuild : Reader → Nat → Reader}
    {below reader : Reader}
    {result : EStateM.Result Failure Reader Bytes}
    (spent : SpentBy below result)
    (lifts : ∀ (data : Bytes) (after : Reader) (place : Nat),
      Spent data below after → Spent data reader (rebuild after place)) :
    SpentBy reader (exactly wanted position rebuild result) := by
  cases result with
  | error failure after => exact lifts _ _ _ spent
  | ok data after =>
      simp only [exactly]
      split
      · exact (lifts _ _ _ spent).readOn
      · exact lifts _ _ _ spent

theorem cursor_spent
    {data : Bytes} {below after : Reader} {position place : Nat}
    (spent : Spent data below after) :
    Spent data (cursor below position) (cursor after place) :=
  ⟨spent.remaining, spent.unread⟩

/-- Giving up a frame may lose bytes. -/
theorem unframed_spent
    {data : Bytes} {below after : Reader} {position place : Nat}
    (frame : Option Frame) (spent : Spent data below after) :
    Spent data (unframer below position frame)
      (unframer after place none) := by
  have := spent.remaining
  constructor
  · simp only [remaining, Option.map_none, Option.getD_none]
    omega
  · exact spent.unread

/-- A frame is spent from its start. -/
theorem framed_spent
    {data : Bytes} (below : Reader) (position place : Nat) (frame : Frame)
    (start : data <+: frame.rest) :
    Spent data (unframer below position (some frame))
      (unframer below place (some (frame.skip data.length))) := by
  have shorter := start.length_le
  constructor
  · simp only [remaining, Frame.skip, Option.map_some, Option.getD_some,
      List.length_drop]
    omega
  · exact List.suffix_rfl

theorem read_spent (count : Int) (reader : Reader) :
    SpentBy reader (reader.read count) := by
  induction reader with
  | file rest offset ending => exact readFile_spent count rest offset ending
  | cursor below position inductionHypothesis =>
      rw [read]
      split
      · exact Spent.refl _
      · exact exactly_spent inductionHypothesis fun _ _ _ => cursor_spent
  | unframer below position frame inductionHypothesis =>
      cases frame with
      | none =>
          rw [read]
          split
          · exact Spent.refl _
          · exact exactly_spent inductionHypothesis fun _ _ _ =>
              unframed_spent none
      | some frame =>
          rw [read]
          split
          · exact Spent.refl _
          · dsimp only
            obtain ⟨data, start, taken⟩ : ∃ data, data <+: frame.rest ∧
                (if count < 0 then frame.rest
                  else frame.rest.take count.toNat) = data := by
              refine ⟨_, ?_, rfl⟩
              split
              · exact List.prefix_rfl
              · exact List.take_prefix count.toNat frame.rest
            rw [taken]
            have spent := framed_spent below position position frame start
            split
            · split
              · exact unframed_spent (some frame) (Spent.refl below)
              · exact exactly_spent inductionHypothesis fun _ _ _ =>
                  unframed_spent (some frame)
            · split
              · exact spent.readOn
              · exact spent

/-! ## Reading lines -/

theorem splitLine_append (content : Bytes) :
    (splitLine content).1 ++ (splitLine content).2 = content := by
  induction content with
  | nil => rfl
  | cons byte rest inductionHypothesis =>
      rw [splitLine]
      split
      · rfl
      · simp only [List.cons_append, inductionHypothesis]

theorem splitLine_of_notMem {line : Bytes} (rest : Bytes)
    (noNewline : (0x0A : UInt8) ∉ line) :
    splitLine (line ++ 0x0A :: rest) = (line ++ [0x0A], rest) := by
  induction line with
  | nil => rfl
  | cons byte line inductionHypothesis =>
      have others := inductionHypothesis fun member =>
        noNewline (List.mem_cons_of_mem byte member)
      have noByte : byte ≠ 0x0A := fun same =>
        noNewline (same ▸ List.mem_cons_self)
      rw [List.cons_append, splitLine, if_neg noByte, others]
      rfl

theorem splitLine_length (content : Bytes) :
    (splitLine content).1.length + (splitLine content).2.length =
      content.length := by
  rw [← List.length_append, splitLine_append]

theorem wholeLine_spent
    {position : Nat} {rebuild : Reader → Nat → Reader}
    {below reader : Reader}
    {result : EStateM.Result Failure Reader Bytes}
    (spent : SpentBy below result)
    (lifts : ∀ (data : Bytes) (after : Reader) (place : Nat),
      Spent data below after → Spent data reader (rebuild after place)) :
    SpentBy reader (wholeLine position rebuild result) := by
  cases result with
  | error failure after => exact lifts _ _ _ spent
  | ok data after =>
      simp only [wholeLine]
      split
      · exact lifts _ _ _ spent
      · exact (lifts _ _ _ spent).readOn

theorem readLine_spent (reader : Reader) :
    SpentBy reader reader.readLine := by
  induction reader with
  | file rest offset ending =>
      have spent : Spent (splitLine rest).1 (file rest offset ending)
          (file (splitLine rest).2
            (offset + (splitLine rest).1.length) ending) := by
        have := splitLine_length rest
        constructor
        · simp only [remaining]
          omega
        · exact ⟨_, splitLine_append rest⟩
      rw [readLine]
      cases ending with
      | none => exact spent
      | some fault =>
          dsimp only
          split
          · exact spent
          · exact spent.readOn
  | cursor below position inductionHypothesis =>
      exact wholeLine_spent inductionHypothesis fun _ _ _ => cursor_spent
  | unframer below position frame inductionHypothesis =>
      cases frame with
      | none =>
          exact wholeLine_spent inductionHypothesis fun _ _ _ =>
            unframed_spent none
      | some frame =>
          have spent := framed_spent below position position frame
            ⟨_, splitLine_append frame.rest⟩
          rw [readLine]
          dsimp only
          split
          · exact wholeLine_spent inductionHypothesis fun _ _ _ =>
              unframed_spent (some frame)
          · split
            · exact spent
            · exact spent.readOn

/-! ## Opening frames -/

/-- A frame that holds no more than has just been handed out. -/
theorem reframed_spent
    {data : Bytes} {below after : Reader} {position place : Nat}
    {frame kept : Option Frame}
    (held : (kept.map (·.rest.length)).getD 0 ≤
      (frame.map (·.rest.length)).getD 0 + data.length)
    (spent : Spent data below after) :
    ReadOn (unframer below position frame) (unframer after place kept) := by
  have := spent.remaining
  constructor
  · simp only [remaining, List.length_nil]
    omega
  · exact spent.unread

/-- A cursor stays a cursor. -/
theorem read_cursor_shape (count : Int) (below : Reader) (position : Nat) :
    ∃ after place,
      finalState ((cursor below position).read count) =
        cursor after place := by
  rw [read]
  split
  · exact ⟨below, position, rfl⟩
  · cases below.read count with
    | error failure after => exact ⟨after, position, rfl⟩
    | ok data after =>
        simp only [exactly]
        split
        · exact ⟨after, position, rfl⟩
        · exact ⟨after, _, rfl⟩

theorem openFrame_readOn (size : Int) (reader : Reader) :
    ReadOn reader (finalState (reader.openFrame size)) := by
  cases reader with
  | file rest offset ending => exact Spent.refl _
  | cursor below position => exact Spent.refl _
  | unframer below position frame =>
      have keptFrame : ∀ data : Bytes,
          ((frame.map ({ · with start := position })).map
            (·.rest.length)).getD 0 ≤
              (frame.map (·.rest.length)).getD 0 + data.length := by
        intro data
        cases frame <;> simp
      rw [openFrame]
      split
      · next unread found =>
          have held : frame = some unread :=
            (Option.filter_eq_some_iff.mp found).1
          subst held
          exact (framed_spent below position position unread
            List.prefix_rfl).readOn
      · have spent := read_spent size (cursor below position)
        obtain ⟨after, place, shape⟩ := read_cursor_shape size below position
        cases outcome : (cursor below position).read size with
        | error failure reader =>
            rw [outcome] at spent shape
            obtain rfl : reader = cursor after place := shape
            have below : ReadOn below after :=
              ⟨spent.remaining, spent.unread⟩
            exact reframed_spent (keptFrame []) below
        | ok data reader =>
            rw [outcome] at spent shape
            obtain rfl : reader = cursor after place := shape
            have below : Spent data below after :=
              ⟨spent.remaining, spent.unread⟩
            exact reframed_spent (by simp) below

end PickleGraph.Reader
