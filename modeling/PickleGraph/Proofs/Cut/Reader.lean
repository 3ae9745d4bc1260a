import PickleGraph.Proofs.Actions
import PickleGraph.Proofs.Framing.Reader

/-!
# Readers of a part of a file

A reader of the first bytes of a file does what a reader of the whole file does
until it meets the end of the part. It fails then and says that the stream is
truncated.
-/

/-!
## Actions on a part of their input

An action runs on the whole of an input and on a part of it that ends early. It
ends alike on both, or it fails on the part because the part has ended; on the
whole it gets past that place then.
-/

namespace PickleGraph.Actions

variable {ε σ α β : Type}

/-- How an action ends on a part of an input and on the whole of it. -/
inductive EndsAlike (related : σ → σ → Prop) (isCut : ε → Prop)
    (isPast : σ → Prop) :
    EStateM.Result ε σ α → EStateM.Result ε σ α → Prop
  | ok (result : α) {after further : σ} :
      related after further →
      EndsAlike related isCut isPast (.ok result after) (.ok result further)
  | error (failure : ε) {after further : σ} :
      related after further →
      EndsAlike related isCut isPast (.error failure after)
        (.error failure further)
  | cut {failure : ε} (after : σ) {whole : EStateM.Result ε σ α} :
      isCut failure → isPast (finalState whole) →
      EndsAlike related isCut isPast (.error failure after) whole

namespace EndsAlike

variable {related : σ → σ → Prop} {isCut : ε → Prop} {isPast : σ → Prop}
variable {part whole : EStateM.Result ε σ α}

theorem mono {isOtherCut : ε → Prop}
    (alike : EndsAlike related isCut isPast part whole)
    (weaken : ∀ failure, isCut failure → isOtherCut failure) :
    EndsAlike related isOtherCut isPast part whole := by
  cases alike with
  | ok result still => exact .ok result still
  | error failure still => exact .error failure still
  | cut after isCut isPast => exact .cut after (weaken _ isCut) isPast

/-- What succeeds on the part does the same on the whole. -/
theorem of_ok {result : α} {after : σ}
    (alike : EndsAlike related isCut isPast part whole)
    (success : part = .ok result after) :
    ∃ further, whole = .ok result further ∧ related after further := by
  cases alike with
  | ok value still =>
      cases success
      exact ⟨_, rfl, still⟩
  | error failure still => cases success
  | cut after isCut isPast => cases success

/-- What succeeds on the whole does the same on the part, or the part has ended
before. -/
theorem of_ok_whole {result : α} {further : σ}
    (alike : EndsAlike related isCut isPast part whole)
    (success : whole = .ok result further) :
    (∃ after, part = .ok result after ∧ related after further) ∨
      ∃ failure after, part = .error failure after ∧ isCut failure ∧
        isPast further := by
  cases alike with
  | ok value still =>
      cases success
      exact .inl ⟨_, rfl, still⟩
  | error failure still => cases success
  | cut after isCut isPast =>
      subst success
      exact .inr ⟨_, after, rfl, isCut, isPast⟩

end EndsAlike

/-- The action ends alike on related states, and it does not get back from
behind the place of the cut. -/
structure Shadows (related : σ → σ → Prop) (isCut : ε → Prop)
    (isPast : σ → Prop) (action : EStateM ε σ α) : Prop where
  alike : ∀ part whole, related part whole →
    EndsAlike related isCut isPast (action part) (action whole)
  keeps : Moves (Keeps isPast) action

namespace Shadows

variable {related : σ → σ → Prop} {isCut : ε → Prop} {isPast : σ → Prop}

theorem pure (result : α) :
    Shadows related isCut isPast (Pure.pure result : EStateM ε σ α) :=
  ⟨fun _ _ start => .ok result start, .pure result⟩

theorem throw (failure : ε) :
    Shadows related isCut isPast
      (MonadExcept.throw failure : EStateM ε σ α) :=
  ⟨fun _ _ start => .error failure start, .throw failure⟩

/-- What follows an action starts only with a result of it. -/
theorem bind_of_returns {property : α → Prop} {action : EStateM ε σ α}
    {next : α → EStateM ε σ β}
    (first : Shadows related isCut isPast action)
    (returns : Returns property action)
    (second : ∀ value, property value →
      Shadows related isCut isPast (next value)) :
    Shadows related isCut isPast (action >>= next) := by
  refine ⟨fun part whole start => ?_, .bind_of_ok first.keeps
    fun value before middle success =>
      (second value (returns _ _ _ success)).keeps middle⟩
  have early := first.alike part whole start
  generalize ended : action part = partEnd at early
  generalize endedWhole : action whole = wholeEnd at early
  cases early with
  | ok value still =>
      rw [bind_of_eq_ok ended, bind_of_eq_ok endedWhole]
      exact (second value (returns _ _ _ ended)).alike _ _ still
  | error failure still =>
      rw [bind_of_eq_error ended, bind_of_eq_error endedWhole]
      exact .error failure still
  | cut after isCut isPast =>
      rw [bind_of_eq_error ended]
      refine .cut after isCut ?_
      cases wholeEnd with
      | ok value middle =>
          rw [bind_of_eq_ok endedWhole]
          exact (second value (returns _ _ _ endedWhole)).keeps middle isPast
      | error failure middle =>
          rw [bind_of_eq_error endedWhole]
          exact isPast

theorem bind {action : EStateM ε σ α} {next : α → EStateM ε σ β}
    (first : Shadows related isCut isPast action)
    (second : ∀ value, Shadows related isCut isPast (next value)) :
    Shadows related isCut isPast (action >>= next) := by
  have returns : Returns (fun _ => True) action := fun _ _ _ _ => trivial
  exact first.bind_of_returns returns fun value _ => second value

theorem mono {isOtherCut : ε → Prop} {action : EStateM ε σ α}
    (shadows : Shadows related isCut isPast action)
    (weaken : ∀ failure, isCut failure → isOtherCut failure) :
    Shadows related isOtherCut isPast action :=
  ⟨fun part whole start => (shadows.alike part whole start).mono weaken,
    shadows.keeps⟩

end Shadows

end PickleGraph.Actions

namespace PickleGraph

open Actions

/-- A defect of the class. -/
def Failure.IsOf (kind : FailureClass) : Failure → Prop
  | .defect cause _ => cause.failureClass = kind
  | .refused _ | .source _ => False

namespace Reader

/-- A reader of a part of a file and one of the whole file, at the same place.
The part has the length, and `more` bytes follow it. Both readers stand on as
many readers of pickles inside. -/
inductive Prolongs (more : Bytes) (length : Nat) :
    (depth : Nat) → Reader → Reader → Prop
  | bottom {rest : Bytes} {position : Nat} (offset : Nat)
      (frame : Option Frame) :
      position + rest.length = length →
      Prolongs more length 0
        (unframer (file rest offset none) position frame)
        (unframer (file (rest ++ more) offset none) position frame)
  | inner {depth : Nat} {below other : Reader} (position : Nat)
      (frame : Option Frame) :
      Prolongs more length depth below other →
      Prolongs more length (depth + 1) (unframer below position frame)
        (unframer other position frame)

/-- The reader has got into the bytes that follow the part. -/
def IsPast (more : Bytes) (reader : Reader) : Prop :=
  more ≠ [] → reader.unread.length < more.length

variable {more : Bytes} {length depth : Nat}

namespace Prolongs

variable {reader other : Reader}

theorem tell? (prolongs : Prolongs more length depth reader other) :
    reader.tell? = other.tell? := by
  cases prolongs with
  | bottom offset frame tally => cases frame <;> rfl
  | inner position frame below => cases frame <;> rfl

theorem position (prolongs : Prolongs more length depth reader other) :
    reader.position = other.position := by
  cases prolongs <;> rfl

theorem unread (prolongs : Prolongs more length depth reader other) :
    other.unread = reader.unread ++ more := by
  induction prolongs with
  | bottom offset frame tally => rfl
  | inner position frame below inductionHypothesis =>
      exact inductionHypothesis

theorem not_isPast (prolongs : Prolongs more length depth reader other)
    (some_ : more ≠ []) : ¬ other.IsPast more := by
  intro isPast
  have shorter := isPast some_
  rw [prolongs.unread, List.length_append] at shorter
  omega

/-- The bytes that have been taken and those that are left are all there
are. -/
theorem position_add (prolongs : Prolongs more length 0 reader other) :
    reader.position + reader.unread.length = length := by
  cases prolongs with
  | bottom offset frame tally => exact tally

end Prolongs

theorem IsPast.of_readOn {before after : Reader}
    (readOn : before.ReadOn after) (isPast : before.IsPast more) :
    after.IsPast more :=
  fun some_ => Nat.lt_of_le_of_lt readOn.unread.length_le (isPast some_)

/-! ## Reading bytes -/

abbrev Alike (more : Bytes) {α : Type}
    (related : Reader → Reader → Prop) :
    EStateM.Result Failure Reader α →
      EStateM.Result Failure Reader α → Prop :=
  EndsAlike related (Failure.IsOf .truncatedStream) (IsPast more)

theorem unread_exactly {count position : Nat}
    {rebuild : Reader → Nat → Reader}
    (unread : ∀ below place, (rebuild below place).unread = below.unread)
    (data : Bytes) (below : Reader) :
    (finalState (exactly count position rebuild (.ok data below))).unread =
      below.unread := by
  unfold exactly
  dsimp only
  split
  · exact unread below _
  · exact unread below _

section Exactly

variable {related : Reader → Reader → Prop}
variable {rebuild : Reader → Nat → Reader}

/-- A cursor on a part of a file. -/
theorem alike_exactly_file (count : Nat) {position : Nat} {rest : Bytes}
    (tally : position + rest.length = length) (offset : Nat)
    (rebuilds : ∀ (rest : Bytes) (offset position : Nat),
      position + rest.length = length →
      related (rebuild (file rest offset none) position)
        (rebuild (file (rest ++ more) offset none) position))
    (unread : ∀ below place, (rebuild below place).unread = below.unread) :
    Alike more related
      (exactly count position rebuild (readFile count rest offset none))
      (exactly count position rebuild
        (readFile count (rest ++ more) offset none)) := by
  have natural : ¬ (count : Int) < 0 := by omega
  unfold readFile
  by_cases large : countLimit ≤ (count : Int)
  · rw [if_pos large, if_pos large]
    exact .error _ (rebuilds rest offset position tally)
  simp only [if_neg large, if_neg natural, Int.toNat_natCast]
  by_cases enough : count ≤ rest.length
  · have taken : (rest.take count).length = count :=
      List.length_take_of_le enough
    have complete : ¬ (rest.take count).length < count := by omega
    rw [List.take_append_of_le_length enough,
      List.drop_append_of_le_length enough, exactly, exactly,
      if_neg complete, if_neg complete]
    refine .ok _ (rebuilds _ _ _ ?_)
    rw [List.length_drop]
    omega
  · have short : (rest.take count).length < count := by
      rw [List.length_take]
      omega
    rw [exactly, if_pos short]
    refine .cut _ rfl fun some_ => ?_
    have positive : 0 < more.length := List.length_pos_iff.mpr some_
    rw [unread_exactly unread]
    show ((rest ++ more).drop count).length < more.length
    rw [List.length_drop, List.length_append]
    omega

/-- A cursor on readers that are read alike. -/
theorem alike_exactly {count position : Nat}
    {part whole : EStateM.Result Failure Reader Bytes}
    (below : Alike more (Prolongs more length depth) part whole)
    (rebuilds : ∀ (below other : Reader) (position : Nat),
      Prolongs more length depth below other →
      related (rebuild below position) (rebuild other position))
    (unread : ∀ below place, (rebuild below place).unread = below.unread) :
    Alike more related (exactly count position rebuild part)
      (exactly count position rebuild whole) := by
  cases below with
  | ok data still =>
      rw [exactly, exactly]
      split
      · exact .error _ (rebuilds _ _ _ still)
      · exact .ok _ (rebuilds _ _ _ still)
  | error failure still => exact .error _ (rebuilds _ _ _ still)
  | cut after isCut isPast =>
      refine .cut _ isCut fun some_ => ?_
      cases whole with
      | ok data further =>
          rw [unread_exactly unread]
          exact isPast some_
      | error failure further =>
          rw [exactly, finalState, unread]
          exact isPast some_

end Exactly

/-- Reading through a frame, or past it. -/
theorem alike_read_framed {below other : Reader} {count position : Nat}
    (bare : Alike more (Prolongs more length depth)
      (exactly count position (unframer · · none) (below.read count))
      (exactly count position (unframer · · none) (other.read count)))
    (framed : ∀ frame, Prolongs more length depth
      (unframer below position frame) (unframer other position frame))
    (frame : Option Frame) :
    Alike more (Prolongs more length depth)
      ((unframer below position frame).read count)
      ((unframer other position frame).read count) := by
  have natural : ¬ (count : Int) < 0 := by omega
  cases frame with
  | none =>
      rw [read, read, if_neg natural, if_neg natural]
      exact bare
  | some frame =>
      rw [read, read]
      by_cases outside : (count : Int) < -countLimit ∨ countLimit ≤ count
      · rw [if_pos outside, if_pos outside]
        exact .error _ (framed _)
      · simp only [if_neg outside, if_neg natural, Int.toNat_natCast]
        split
        · exact bare
        · split
          · exact .error _ (framed _)
          · exact .ok _ (framed _)

theorem alike_read {reader other : Reader}
    (prolongs : Prolongs more length depth reader other) (count : Nat) :
    Alike more (Prolongs more length depth) (reader.read count)
      (other.read count) := by
  induction prolongs with
  | bottom offset frame tally =>
      refine alike_read_framed ?_ (fun frame => .bottom offset frame tally) _
      exact alike_exactly_file count tally offset
        (fun _ offset _ tally => .bottom offset none tally) fun _ _ => rfl
  | inner position frame below inductionHypothesis =>
      refine alike_read_framed ?_ (fun frame => .inner position frame below) _
      exact alike_exactly inductionHypothesis
        (fun _ _ position below => .inner position none below) fun _ _ => rfl

/-! ## Reading lines -/

theorem unread_wholeLine {position : Nat}
    (line : Bytes) (below : Reader) :
    (finalState (wholeLine position (unframer · · none)
      (.ok line below))).unread = below.unread := by
  unfold wholeLine
  dsimp only
  split
  · rfl
  · rfl

/-- A line that ends within the part is the same in the whole. -/
theorem splitLine_append_of_endsLine {content : Bytes} (more : Bytes)
    (ends : endsLine (splitLine content).1 = true) :
    splitLine (content ++ more) =
      ((splitLine content).1, (splitLine content).2 ++ more) := by
  have isLine := isLine_splitLine ends
  have split := isLine.splitLine_append ((splitLine content).2 ++ more)
  rw [← List.append_assoc, splitLine_append] at split
  exact split

theorem endsLine_cons {byte : UInt8} {line : Bytes}
    (ends : endsLine line = true) : endsLine (byte :: line) = true := by
  cases line with
  | nil => cases ends
  | cons next rest => exact ends

/-- A line that does not end within the part goes on behind it. -/
theorem splitLine_append_of_not_endsLine {content : Bytes} (more : Bytes)
    (noEnd : ¬ endsLine (splitLine content).1 = true) :
    splitLine (content ++ more) =
      (content ++ (splitLine more).1, (splitLine more).2) := by
  induction content with
  | nil => rfl
  | cons byte rest inductionHypothesis =>
      rw [splitLine] at noEnd
      split at noEnd
      · next isNewline =>
          rw [isNewline] at noEnd
          exact (noEnd rfl).elim
      · next noNewline =>
          have later := inductionHypothesis fun ends =>
            noEnd (endsLine_cons ends)
          rw [List.cons_append, splitLine, if_neg noNewline, later]
          rfl

theorem length_splitLine_lt {content : Bytes} (some_ : content ≠ []) :
    (splitLine content).2.length < content.length := by
  have lengths := splitLine_length content
  cases content with
  | nil => exact absurd rfl some_
  | cons byte rest =>
      rw [splitLine] at lengths ⊢
      split at lengths
      · next isNewline =>
          rw [if_pos isNewline]
          simp
      · next noNewline =>
          rw [if_neg noNewline]
          simp only [List.length_cons] at lengths ⊢
          omega

/-- A line of a part of a file. -/
theorem alike_wholeLine_file {position : Nat} {rest : Bytes}
    (tally : position + rest.length = length) (offset : Nat) :
    Alike more (Prolongs more length 0)
      (wholeLine position (unframer · · none)
        (file rest offset none).readLine)
      (wholeLine position (unframer · · none)
        (file (rest ++ more) offset none).readLine) := by
  rw [readLine, readLine]
  dsimp only
  by_cases ends : endsLine (splitLine rest).1 = true
  · have lengths := splitLine_length rest
    rw [splitLine_append_of_endsLine more ends, wholeLine, wholeLine,
      if_pos ends, if_pos ends]
    refine .ok _ (.bottom _ none ?_)
    omega
  · rw [wholeLine, if_neg ends]
    refine .cut _ rfl fun some_ => ?_
    rw [unread_wholeLine, splitLine_append_of_not_endsLine more ends]
    exact length_splitLine_lt some_

theorem alike_wholeLine {position : Nat}
    {part whole : EStateM.Result Failure Reader Bytes}
    (below : Alike more (Prolongs more length depth) part whole) :
    Alike more (Prolongs more length (depth + 1))
      (wholeLine position (unframer · · none) part)
      (wholeLine position (unframer · · none) whole) := by
  cases below with
  | ok line still =>
      rw [wholeLine, wholeLine]
      split
      · exact .ok _ (.inner _ none still)
      · exact .error _ (.inner _ none still)
  | error failure still => exact .error _ (.inner _ none still)
  | cut after isCut isPast =>
      refine .cut _ isCut fun some_ => ?_
      cases whole with
      | ok line further =>
          rw [unread_wholeLine]
          exact isPast some_
      | error failure further => exact isPast some_

/-- A line from a frame, or from behind it. -/
theorem alike_readLine_framed {below other : Reader} {position : Nat}
    (bare : Alike more (Prolongs more length depth)
      (wholeLine position (unframer · · none) below.readLine)
      (wholeLine position (unframer · · none) other.readLine))
    (framed : ∀ frame, Prolongs more length depth
      (unframer below position frame) (unframer other position frame))
    (frame : Option Frame) :
    Alike more (Prolongs more length depth)
      (unframer below position frame).readLine
      (unframer other position frame).readLine := by
  cases frame with
  | none => exact bare
  | some frame =>
      rw [readLine, readLine]
      dsimp only
      split
      · exact bare
      · split
        · exact .ok _ (framed _)
        · exact .error _ (framed _)

theorem alike_readLine {reader other : Reader}
    (prolongs : Prolongs more length depth reader other) :
    Alike more (Prolongs more length depth) reader.readLine
      other.readLine := by
  induction prolongs with
  | bottom offset frame tally =>
      exact alike_readLine_framed (alike_wholeLine_file tally offset)
        (fun frame => .bottom offset frame tally) frame
  | inner position frame below inductionHypothesis =>
      exact alike_readLine_framed (alike_wholeLine inductionHypothesis)
        (fun frame => .inner position frame below) frame

/-! ## Opening frames -/

/-- Cursors on which matching unframers stand. -/
def Carries (more : Bytes) (length depth : Nat)
    (reader other : Reader) : Prop :=
  ∃ below further position,
    reader = cursor below position ∧ other = cursor further position ∧
      ∀ frame, Prolongs more length depth (unframer below position frame)
        (unframer further position frame)

/-- The bytes of a frame are all read when it is opened. -/
theorem alike_openFrame_read {below other : Reader} {size position : Nat}
    (bare : Alike more (Carries more length depth)
      (exactly size position cursor (below.read size))
      (exactly size position cursor (other.read size)))
    (framed : ∀ frame, Prolongs more length depth
      (unframer below position frame) (unframer other position frame))
    (frame : Option Frame) :
    Alike more (Prolongs more length depth)
      ((unframer below position frame).openFrame size)
      ((unframer other position frame).openFrame size) := by
  have natural : ¬ (size : Int) < 0 := by omega
  rw [openFrame, openFrame]
  split
  · exact .error _ (framed _)
  · have cursorRead : ∀ reader : Reader,
        (cursor reader position).read size =
          exactly size position cursor (reader.read size) := by
      intro reader
      rw [read, if_neg natural, Int.toNat_natCast]
    obtain ⟨after, place, shape⟩ := read_cursor_shape size other position
    rw [cursorRead] at shape
    rw [cursorRead, cursorRead]
    generalize exactly size position cursor (below.read size) = part at bare
    generalize exactly size position cursor (other.read size) = whole
      at bare shape
    cases bare with
    | ok data still =>
        obtain ⟨inner, further, place, rfl, rfl, stands⟩ := still
        exact .ok _ (stands _)
    | error failure still =>
        obtain ⟨inner, further, place, rfl, rfl, stands⟩ := still
        exact .error _ (stands _)
    | cut stopped isCut isPast =>
        have further : IsPast more (finalState whole) := isPast
        rw [shape] at further
        cases whole with
        | ok data reader =>
            obtain rfl : reader = cursor after place := shape
            cases stopped <;> exact .cut _ isCut further
        | error failure reader =>
            obtain rfl : reader = cursor after place := shape
            cases stopped <;> exact .cut _ isCut further

theorem alike_openFrame {reader other : Reader}
    (prolongs : Prolongs more length depth reader other) (size : Nat) :
    Alike more (Prolongs more length depth) (reader.openFrame size)
      (other.openFrame size) := by
  cases prolongs with
  | bottom offset frame tally =>
      refine alike_openFrame_read ?_
        (fun frame => .bottom offset frame tally) frame
      exact alike_exactly_file size tally offset
        (fun _ offset _ tally =>
          ⟨_, _, _, rfl, rfl, fun frame => .bottom offset frame tally⟩)
        fun _ _ => rfl
  | inner position frame below =>
      refine alike_openFrame_read ?_
        (fun frame => .inner position frame below) frame
      exact alike_exactly (alike_read below size)
        (fun _ _ position below =>
          ⟨_, _, _, rfl, rfl, fun frame => .inner position frame below⟩)
        fun _ _ => rfl

end Reader

end PickleGraph
