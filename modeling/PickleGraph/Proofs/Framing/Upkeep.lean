import PickleGraph.Proofs.Framing.Machine

/-!
# What readers keep

A machine reads a pickle inside another one through a reader that stands on the
reader of the other one. What a reader keeps while bytes and lines are read from
it, it keeps under any number of such readers, and so it does while the pickles
inside are decoded. Where the readers hold no frames, no opcode but that of a
frame leaves one behind, for the frames of the pickles inside go with their
readers.
-/

namespace PickleGraph

open Actions

namespace Reader

/-- Reading bytes and lines from a reader with the property leaves one with the
property. -/
structure IsKept (base : Reader → Prop) : Prop where
  read : ∀ {reader after : Reader} {count : Nat} {data : Bytes},
    base reader → reader.read count = .ok data after → base after
  readLine : ∀ {reader after : Reader} {data : Bytes},
    base reader → reader.readLine = .ok data after → base after

/-- A reader with the property stands beneath the readers of so many pickles
inside. -/
def Over (base : Reader → Prop) : Nat → Reader → Prop
  | 0, reader => base reader
  | depth + 1, unframer below _ _ => below.Over base depth
  | _ + 1, _ => False

/-- Opening a frame leaves the property alone as well. -/
def OpensOver (base : Reader → Prop) (depth : Nat) : Prop :=
  ∀ {reader after : Reader} {size : Nat}, reader.Over base depth →
    reader.openFrame size = .ok () after → after.Over base depth

variable {base : Reader → Prop} {reader after : Reader} {depth : Nat}

theorem Over.beneath (stays : reader.Over base (depth + 1)) :
    reader.beneath.Over base depth := by
  cases reader with
  | unframer below position frame => exact stays
  | file | cursor => cases stays

namespace IsKept

variable (isKept : IsKept base)

include isKept

theorem over_read {count : Nat} {data : Bytes}
    (stays : reader.Over base depth)
    (success : reader.read count = .ok data after) :
    after.Over base depth := by
  induction depth generalizing reader data after with
  | zero => exact isKept.read stays success
  | succ depth inductionHypothesis =>
      cases reader with
      | file | cursor => cases stays
      | unframer below position frame =>
          have belowOver : below.Over base depth := stays
          have bare : ∀ {after : Reader},
              (unframer below position none).read count = .ok data after →
              after.Over base (depth + 1) := by
            intro after success
            obtain ⟨further, read, _, rfl⟩ :=
              read_unframed_eq_ok_iff.mp success
            exact inductionHypothesis belowOver read
          cases frame with
          | none => exact bare success
          | some frame =>
              have inRange := inRange_of_read success
              rcases (read_framed_eq_ok_iff inRange).mp success with
                ⟨_, _, fromBelow⟩ | ⟨_, _, _, rfl⟩
              · exact bare fromBelow
              · exact stays

theorem over_readLine {data : Bytes} (stays : reader.Over base depth)
    (success : reader.readLine = .ok data after) :
    after.Over base depth := by
  induction depth generalizing reader data after with
  | zero => exact isKept.readLine stays success
  | succ depth inductionHypothesis =>
      cases reader with
      | file | cursor => cases stays
      | unframer below position frame =>
          have belowOver : below.Over base depth := stays
          have bare : ∀ {after : Reader},
              (unframer below position none).readLine = .ok data after →
              after.Over base (depth + 1) := by
            intro after success
            obtain ⟨further, read, _, rfl⟩ :=
              readLine_unframed_eq_ok_iff.mp success
            exact inductionHypothesis belowOver read
          cases frame with
          | none => exact bare success
          | some frame =>
              rcases readLine_framed_eq_ok_iff.mp success with
                ⟨_, fromBelow⟩ | ⟨_, _, _, rfl⟩
              · exact bare fromBelow
              · exact stays

/-- The frame of a pickle inside is read from beneath. -/
theorem opensOver (depth : Nat) : OpensOver base (depth + 1) := by
  intro reader after size stays success
  cases reader with
  | file | cursor => cases stays
  | unframer below position frame =>
      obtain ⟨_, content, further, fromBelow, _, rfl⟩ :=
        openFrame_eq_ok_iff.mp success
      have furtherOver : further.Over base depth :=
        isKept.over_read (show below.Over base depth from stays) fromBelow
      exact furtherOver

end IsKept

end Reader

open Reader (IsKept OpensOver)

/-! ## Decoding -/

namespace Decoding

variable {α : Type} {base : Reader → Prop} {depth : Nat}

/-- Where the action succeeds, the reader beneath keeps the property. -/
abbrev StaysOver (base : Reader → Prop) (depth : Nat)
    (action : Decoding α) : Prop :=
  Abides (fun source : Source => source.reader.Over base depth)
    (fun _ _ => True) action

theorem staysOver_reading {action : Reading α}
    (stays : ∀ {reader after : Reader} {result : α},
      reader.Over base depth → action reader = .ok result after →
        after.Over base depth) :
    StaysOver base depth (reading action) := by
  refine .of_success fun before result after here success => ?_
  obtain ⟨reader, read, rfl⟩ := reading_eq_ok_iff.mp success
  exact stays here read

theorem Parallel.staysOver (isKept : IsKept base)
    {nested other : Decoding Value}
    (nestedStays : StaysOver base depth nested)
    {first second : Decoding α}
    (parallel : Parallel nested other first second) :
    StaysOver base depth first := by
  induction parallel with
  | pure result => exact .pure fun _ here => here
  | throw failure otherFailure => exact .throw fun _ _ => trivial
  | bind _ _ firstStays nextStays => exact .bind firstStays nextStays
  | tell _ nextStays =>
      intro source here
      exact nextStays source.reader.tell? none source here
  | read count => exact staysOver_reading isKept.over_read
  | readLine => exact staysOver_reading isKept.over_readLine
  | build grows =>
      refine .of_success fun before result after here success => ?_
      obtain ⟨heap, made, rfl⟩ := build_eq_ok_iff.mp success
      exact here
  | mapFailure change otherChange _ actionStays =>
      refine .of_success fun before result after here success => ?_
      exact actionStays.of_ok here (mapFailure_eq_ok_iff.mp success)
  | onReader reader _ _ =>
      refine .of_success fun before result after here success => ?_
      obtain ⟨further, done, rfl⟩ := onReader_eq_ok_iff.mp success
      exact here
  | nested => exact nestedStays

end Decoding

/-! ## Machines -/

namespace Execution

variable {α : Type} {base : Reader → Prop} {depth : Nat}

/-- Where the action succeeds, the reader beneath keeps the property. -/
abbrev StaysOver (base : Reader → Prop) (depth : Nat)
    (action : Execution α) : Prop :=
  Abides (fun machine : Machine => machine.source.reader.Over base depth)
    (fun _ _ => True) action

theorem staysOver_decoding {action : Decoding α}
    (stays : Decoding.StaysOver base depth action) :
    StaysOver base depth (decoding action) := by
  refine .of_success fun before result after here success => ?_
  obtain ⟨source, decoded, rfl⟩ := decoding_eq_ok_iff.mp success
  exact stays.of_ok here decoded

theorem Stationary.staysOver {action : Execution α}
    (stationary : Stationary action) : StaysOver base depth action := by
  refine .of_success fun before result after here success => ?_
  have same := stationary.source_reader before
  rw [success] at same
  rw [show after.source.reader = before.source.reader from same]
  exact here

theorem staysOver_readOpcode (isKept : IsKept base) :
    StaysOver base depth readOpcode := by
  refine .of_success fun before opcode after here success => ?_
  obtain ⟨data, source, decoded, _, rfl⟩ := readOpcode_eq_ok_iff.mp success
  obtain ⟨reader, read, rfl⟩ := Decoding.reading_eq_ok_iff.mp decoded
  exact isKept.over_read here read

section Steps

variable {options : Options} {nested : Decoding Value}
variable (isKept : IsKept base)
variable (nestedStays : Decoding.StaysOver base depth nested)

include isKept nestedStays

theorem staysOver_fillPlaceholder (address : Address) (record : Record) :
    StaysOver base depth
      (fillPlaceholder options nested address record) := by
  unfold fillPlaceholder
  split
  · next layout _ =>
    have parallel : Decoding.Parallel nested nested _ _ :=
      Payload.parallel_materialize options layout record
    exact .bind
      (staysOver_decoding (parallel.staysOver isKept nestedStays))
      fun array => (Stationary.putArray address array).staysOver
  · exact .pure fun _ here => here

theorem staysOver_execute {instruction : Instruction}
    (opens : ∀ size, instruction = .frame size → OpensOver base depth) :
    StaysOver base depth (execute options nested instruction) := by
  by_cases isFrame : ∃ size, instruction = .frame size
  · obtain ⟨size, rfl⟩ := isFrame
    have opened : Decoding.StaysOver base depth
        (Decoding.reading (Reader.openFrame size)) :=
      Decoding.staysOver_reading (opens size rfl)
    exact .bind (staysOver_decoding opened)
      fun _ => .pure fun _ here => here
  by_cases isBuild : instruction = .build
  · subst isBuild
    refine .bind ?_ fun _ => .pure fun _ here => here
    rw [giveState_eq]
    exact .bind Stationary.applyToTop.staysOver fun target =>
      staysOver_fillPlaceholder isKept nestedStays _ _
  · exact (stationary_execute options nested instruction
      (fun size same => isFrame ⟨size, same⟩) isBuild).staysOver

theorem staysOver_perform {opcode : Opcode}
    (opens : opcode = .frame → OpensOver base depth) :
    StaysOver base depth (perform options nested opcode) := by
  refine .of_success fun before result after here success => ?_
  obtain ⟨instruction, middle, last, argued, executed, rfl⟩ :=
    perform_eq_ok_iff.mp success
  have parallel : Decoding.Parallel nested nested _ _ :=
    Instruction.parallel_ofOpcode options.rules opcode
  have arguments := staysOver_decoding
    (parallel.staysOver isKept nestedStays)
  obtain ⟨source, parsed, _⟩ := decoding_eq_ok_iff.mp argued
  have suits := Instruction.suits_ofOpcode options.rules opcode
    before.source instruction source parsed
  have executes : StaysOver base depth
      (execute options nested instruction) := by
    refine staysOver_execute isKept nestedStays ?_
    rintro size rfl
    exact opens suits
  have lastOver := executes.of_ok (arguments.of_ok here argued) executed
  cases result <;> exact lastOver

end Steps

/-! ## Pickles inside -/

theorem staysOver_inside {action : Execution Value}
    (stays : StaysOver base (depth + 1) action) :
    Decoding.StaysOver base depth (inside action) := by
  refine .of_success fun before value after here success => ?_
  obtain ⟨machine, finished, rfl⟩ := inside_eq_ok_iff.mp success
  have start : (Machine.ofReader before.reader before.heap
      false).source.reader.Over base (depth + 1) := here
  exact (stays.of_ok start finished).beneath

theorem staysOver_run (isKept : IsKept base) (steps : Nat)
    (options : Options) :
    StaysOver base (depth + 1) (run steps options) := by
  induction steps generalizing options depth with
  | zero =>
      refine .of_success fun before value after here success => ?_
      cases placed_eq_ok_iff.mp success
  | succ steps inductionHypothesis =>
      rw [run_succ]
      have stepStays : StaysOver base (depth + 1)
          (placed (step options
            (inside (run steps (nestedOptions options))))) := by
        refine .of_success fun before result after here success => ?_
        have nestedStays : Decoding.StaysOver base (depth + 1)
            (inside (run steps (nestedOptions options))) :=
          staysOver_inside (inductionHypothesis (nestedOptions options))
        have stepStays : StaysOver base (depth + 1) (step options
            (inside (run steps (nestedOptions options)))) :=
          .bind (staysOver_readOpcode isKept) fun opcode =>
            staysOver_perform isKept nestedStays
              fun _ => isKept.opensOver depth
        exact stepStays.of_ok here (placed_eq_ok_iff.mp success)
      refine .bind stepStays fun result => ?_
      cases result with
      | some value => exact .pure fun _ here => here
      | none => exact inductionHypothesis options

/-- The pickles inside may open frames of their own, but these go with their
readers. -/
theorem staysOver_nestedPickle (isKept : IsKept base) (options : Options) :
    Decoding.StaysOver base depth (nestedPickle options) := by
  refine staysOver_inside fun machine here => ?_
  exact staysOver_run isKept (machine.size + 1) (nestedOptions options)
    machine here

end Execution

/-! ## Readers without frames -/

namespace Reader

theorem Faces.unread {bytes : Bytes} {reader : Reader}
    (faces : reader.Faces bytes) : reader.unread = bytes := by
  induction reader with
  | file rest offset ending => exact faces.1
  | cursor below position inductionHypothesis =>
      exact inductionHypothesis faces
  | unframer below position frame inductionHypothesis =>
      exact inductionHypothesis faces.2

theorem Faces.read_eq_ok {bytes data : Bytes} {reader after : Reader}
    {count : Nat} (faces : reader.Faces bytes)
    (success : reader.read count = .ok data after) :
    ∃ more, bytes = data ++ more ∧ data.length ≤ count ∧
      after.Faces more := by
  induction reader generalizing after with
  | file content offset ending =>
      obtain ⟨rfl, rfl⟩ := faces
      have inRange := inRange_of_read success
      rw [Reader.read, readFile, if_neg (Int.not_le.mpr inRange)] at success
      dsimp only at success
      rw [if_neg (Int.not_lt.mpr (Int.natCast_nonneg count)),
        Int.toNat_natCast] at success
      cases success
      exact ⟨content.drop count, (List.take_append_drop _ _).symm,
        List.length_take_le _ _, rfl, rfl⟩
  | cursor below position inductionHypothesis =>
      rw [Reader.read, if_neg (Int.not_lt.mpr (Int.natCast_nonneg count)),
        Int.toNat_natCast] at success
      obtain ⟨further, read, _, rfl⟩ := exactly_eq_ok_iff.mp success
      obtain ⟨more, bytes, short, furtherFaces⟩ :=
        inductionHypothesis faces read
      exact ⟨more, bytes, short, furtherFaces⟩
  | unframer below position frame inductionHypothesis =>
      obtain ⟨rfl, belowFaces⟩ := faces
      obtain ⟨further, read, _, rfl⟩ := read_unframed_eq_ok_iff.mp success
      obtain ⟨more, bytes, short, furtherFaces⟩ :=
        inductionHypothesis belowFaces read
      exact ⟨more, bytes, short, rfl, furtherFaces⟩

theorem Faces.readLine_eq_ok {bytes data : Bytes} {reader after : Reader}
    (faces : reader.Faces bytes)
    (success : reader.readLine = .ok data after) :
    ∃ more, bytes = data ++ more ∧ after.Faces more := by
  induction reader generalizing after with
  | file content offset ending =>
      obtain ⟨rfl, rfl⟩ := faces
      rw [Reader.readLine] at success
      cases success
      exact ⟨_, (splitLine_append content).symm, rfl, rfl⟩
  | cursor below position inductionHypothesis =>
      rw [Reader.readLine] at success
      cases outcome : below.readLine with
      | error failure further =>
          rw [outcome] at success
          cases success
      | ok line further =>
          rw [outcome, wholeLine] at success
          split at success
          · cases success
            obtain ⟨more, bytes, furtherFaces⟩ :=
              inductionHypothesis faces outcome
            exact ⟨more, bytes, furtherFaces⟩
          · cases success
  | unframer below position frame inductionHypothesis =>
      obtain ⟨rfl, belowFaces⟩ := faces
      obtain ⟨further, read, _, rfl⟩ := readLine_unframed_eq_ok_iff.mp success
      obtain ⟨more, bytes, furtherFaces⟩ :=
        inductionHypothesis belowFaces read
      exact ⟨more, bytes, rfl, furtherFaces⟩

/-- A reader without frames. -/
def IsBare (reader : Reader) : Prop :=
  ∃ bytes, reader.Faces bytes

theorem isKept_isBare : IsKept IsBare where
  read := by
    rintro reader after count data ⟨bytes, faces⟩ success
    obtain ⟨more, _, _, moreFaces⟩ := faces.read_eq_ok success
    exact ⟨more, moreFaces⟩
  readLine := by
    rintro reader after data ⟨bytes, faces⟩ success
    obtain ⟨more, _, moreFaces⟩ := faces.readLine_eq_ok success
    exact ⟨more, moreFaces⟩

end Reader

namespace Execution

/-- Without frames no opcode but the one of a frame leaves a frame behind. -/
theorem isBare_of_perform {options : Options} {before after : Machine}
    {opcode : Opcode} {result : Option Value}
    (isBare : before.source.reader.IsBare) (noFrame : opcode ≠ .frame)
    (performed : perform options (nestedPickle options) opcode before =
      .ok result after) : after.source.reader.IsBare := by
  have stays : StaysOver Reader.IsBare 0
      (perform options (nestedPickle options) opcode) :=
    staysOver_perform Reader.isKept_isBare
      (staysOver_nestedPickle Reader.isKept_isBare options)
      fun isFrame => absurd isFrame noFrame
  exact stays.of_ok isBare performed

end Execution

end PickleGraph
