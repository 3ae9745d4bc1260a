import PickleGraph.Proofs.Compression.Steady
import PickleGraph.Storage.Codec

/-!
# Compressed data in pieces

A decompressor that is fed a file piece by piece hands out the content of the
file, wherever the pieces are cut.
-/

namespace PickleGraph

open Actions Compression

/-! ## Outcomes of a part -/

namespace Compression

variable {α : Type} {action : Unpacking α} {part more output : Bytes}

/-- How the first part of compressed data ends, and what it puts out. -/
theorem Steady.outcome_part (steady : Steady action) (part more : Bytes) :
    (∃ output rest,
        Outcome.of action part = ⟨output, .complete rest⟩ ∧
        Outcome.of action (part ++ more) =
          ⟨output, .complete (rest ++ more)⟩) ∨
      (∃ output further, Outcome.of action part = ⟨output, .damaged⟩ ∧
        Outcome.of action (part ++ more) = ⟨further, .damaged⟩) ∨
      ∃ output, Outcome.of action part = ⟨output, .truncated⟩ ∧
        output <+: (Outcome.of action (part ++ more)).output := by
  have agrees : Agrees more (action { rest := part })
      (action { rest := part ++ more }) :=
    steady.agrees more { rest := part } (Nat.zero_le 8)
  unfold Outcome.of
  generalize action { rest := part } = first at agrees
  generalize action { rest := part ++ more } = whole at agrees
  cases agrees with
  | ok result after => exact .inl ⟨_, _, rfl, rfl⟩
  | damaged after further => exact .inr (.inl ⟨_, _, rfl, rfl⟩)
  | truncated kept =>
      refine .inr (.inr ⟨_, rfl, ?_⟩)
      cases whole with
      | ok result last => exact kept
      | error stop last => exact kept

/-- What follows the end of compressed data is left alone. -/
theorem Steady.outcome_of_complete (steady : Steady action) {rest : Bytes}
    (ended : Outcome.of action part = ⟨output, .complete rest⟩)
    (more : Bytes) :
    Outcome.of action (part ++ more) = ⟨output, .complete (rest ++ more)⟩ := by
  rcases steady.outcome_part part more with
    ⟨_, _, first, whole⟩ | ⟨_, _, first, _⟩ | ⟨_, first, _⟩
  · cases first.symm.trans ended
    exact whole
  · cases first.symm.trans ended
  · cases first.symm.trans ended

/-- More input keeps the output of what is cut off. -/
theorem Steady.output_prefix (steady : Steady action)
    (isCut : Outcome.of action part = ⟨output, .truncated⟩) (more : Bytes) :
    output <+: (Outcome.of action (part ++ more)).output := by
  rcases steady.outcome_part part more with
    ⟨_, _, first, _⟩ | ⟨_, _, first, _⟩ | ⟨_, first, isPrefix⟩
  · cases first.symm.trans isCut
  · cases first.symm.trans isCut
  · cases first.symm.trans isCut
    exact isPrefix

end Compression

/-! ## Pieces -/

namespace Decompressor

theorem flatten_pieces {size : Nat} (positive : 0 < size)
    (content : Bytes) : (pieces size content).flatten = content := by
  have first : ∀ count,
      ((List.range count).map fun index =>
        (content.drop (index * size)).take size).flatten =
          content.take (count * size) := by
    intro count
    induction count with
    | zero => simp
    | succ count inductionHypothesis =>
        rw [List.range_succ, List.map_append, List.flatten_append,
          inductionHypothesis, Nat.succ_mul, List.take_add]
        simp
  have enough : content.length ≤
      (content.length + size - 1) / size * size := by
    have split := Nat.div_add_mod (content.length + size - 1) size
    have short := Nat.mod_lt (content.length + size - 1) positive
    rw [Nat.mul_comm] at split
    omega
  unfold pieces
  rw [first, List.take_of_length_le enough]

section Drain

variable {decompressor : Decompressor} {state : decompressor.State}

theorem drain_cons (unfinished : decompressor.isFinished state = false)
    (piece : Bytes) (files : List Bytes) :
    decompressor.drain state (piece :: files) =
      match decompressor.feed state piece with
      | .error fault => ⟨[], some fault⟩
      | .ok (output, after) =>
          (decompressor.drain after files).after output := by
  rw [drain]
  exact if_neg (ne_true_of_eq_false unfinished)

theorem drain_of_feed (unfinished : decompressor.isFinished state = false)
    {piece output : Bytes} {after : decompressor.State}
    (fed : decompressor.feed state piece = .ok (output, after))
    (files : List Bytes) :
    decompressor.drain state (piece :: files) =
      (decompressor.drain after files).after output := by
  rw [drain_cons unfinished, fed]

/-- A decompressor that has finished hands out nothing more. -/
theorem drain_of_isFinished
    (isFinished : decompressor.isFinished state = true)
    (files : List Bytes) : decompressor.drain state files = .ofBytes [] := by
  cases files with
  | nil =>
      rw [drain, if_pos isFinished]
      rfl
  | cons piece files => rw [drain, if_pos isFinished]

end Drain

/-- The decompressor has been given the first part of the data, and there is
more to come. -/
structure Intake.Awaits (action : Unpacking Unit) (intake : Intake) : Prop
    where
  isCut : ∃ output, Outcome.of action intake.input = ⟨output, .truncated⟩ ∧
    intake.given = output.length
  isUnfinished : intake.isFinished = false

section Pieces

variable {action : Unpacking Unit} {fault : SourceFault} {intake : Intake}
variable {piece output rest : Bytes}

/-- The piece that ends the data is the last that is fed. -/
theorem feed_of_complete
    (whole : Outcome.of action (intake.input ++ piece) =
      ⟨output, .complete rest⟩) :
    (ofOutcome (Outcome.of action) fault).feed intake piece =
      .ok (output.drop intake.given,
        (⟨intake.input ++ piece, output.length, true⟩ : Intake)) := by
  unfold ofOutcome
  dsimp only
  rw [whole]

/-- A piece that does not end the data is kept, and what it adds to the output
is handed out. -/
theorem feed_of_truncated
    (part : Outcome.of action (intake.input ++ piece) =
      ⟨output, .truncated⟩) :
    (ofOutcome (Outcome.of action) fault).feed intake piece =
      .ok (output.drop intake.given,
        (⟨intake.input ++ piece, output.length, false⟩ : Intake)) := by
  unfold ofOutcome
  dsimp only
  rw [part]

/-- What has been handed out is part of the output of the longer input. -/
theorem Intake.Awaits.given_le (steady : Steady action)
    (awaits : intake.Awaits action)
    (part : Outcome.of action (intake.input ++ piece) =
      ⟨output, .truncated⟩) : intake.given ≤ output.length := by
  obtain ⟨early, isCut, given⟩ := awaits.isCut
  have grown := steady.output_prefix isCut piece
  rw [part] at grown
  exact given ▸ grown.length_le

end Pieces

/-- A decompressor hands out what it has not handed out yet. -/
theorem drain_ofOutcome {action : Unpacking Unit} (steady : Steady action)
    (fault : SourceFault) {output rest : Bytes} {intake : Intake}
    (awaits : intake.Awaits action) (files : List Bytes)
    (complete : Outcome.of action (intake.input ++ files.flatten) =
      ⟨output, .complete rest⟩) :
    (ofOutcome (Outcome.of action) fault).drain intake files =
      .ofBytes (output.drop intake.given) := by
  induction files generalizing intake with
  | nil =>
      obtain ⟨early, isCut, _⟩ := awaits.isCut
      rw [List.flatten_nil, List.append_nil, isCut] at complete
      cases complete
  | cons piece files inductionHypothesis =>
      rw [List.flatten_cons, ← List.append_assoc] at complete
      refine (drain_cons awaits.isUnfinished piece files).trans ?_
      rcases steady.outcome_part (intake.input ++ piece) files.flatten with
        ⟨all, left, part, whole⟩ | ⟨some_, further, _, whole⟩ |
        ⟨some_, part, kept⟩
      · cases whole.symm.trans complete
        have ended :
            (ofOutcome (Outcome.of action) fault).drain
              (⟨intake.input ++ piece, output.length, true⟩ : Intake) files =
                .ofBytes [] := drain_of_isFinished rfl files
        rw [feed_of_complete part]
        refine (congrArg (Content.after _) ended).trans ?_
        exact congrArg Content.ofBytes (List.append_nil _)
      · cases whole.symm.trans complete
      · have known := awaits.given_le steady part
        have awaitsMore : Intake.Awaits action
            ⟨intake.input ++ piece, some_.length, false⟩ :=
          ⟨⟨some_, part, rfl⟩, rfl⟩
        have later := inductionHypothesis awaitsMore complete
        rw [feed_of_truncated part]
        refine (congrArg (Content.after _) later).trans ?_
        rw [complete] at kept
        obtain ⟨last, rfl⟩ := kept
        show Content.mk (some_.drop intake.given ++
          (some_ ++ last).drop some_.length) none = _
        rw [List.drop_left, List.drop_append_of_le_length known]
        rfl

end Decompressor

/-- Without any input a zlib stream is cut off. -/
theorem stream_nil : Outcome.of Compression.Zlib.stream [] =
    ⟨[], .truncated⟩ := by
  have noHeader : Compression.Zlib.header { rest := [] } =
      .error .truncated { rest := [] } := bind_of_eq_error rfl
  have noStream : Compression.Zlib.stream { rest := [] } =
      .error .truncated { rest := [] } := bind_of_eq_error noHeader
  unfold Outcome.of
  rw [noStream]
  rfl

/-- Wherever the file is cut into pieces, the stream is handed out. -/
theorem Decompressor.drain_pieces {size : Nat} (positive : 0 < size)
    {file output rest : Bytes}
    (stream : Outcome.of Compression.Zlib.stream file =
      ⟨output, .complete rest⟩) :
    zlib.drain zlib.start (pieces size file) = .ofBytes output := by
  rw [← flatten_pieces positive file] at stream
  have start : Intake.Awaits Compression.Zlib.stream {} :=
    ⟨⟨[], stream_nil, rfl⟩, rfl⟩
  exact drain_ofOutcome Compression.Zlib.steady_stream .damagedDeflate start
    (pieces size file) stream

theorem Decompressor.pieceSize_pos : 0 < pieceSize := by
  unfold pieceSize
  omega

/-- A file that starts with a zlib stream has the content of the stream. -/
theorem Content.ofZlib_eq {file output rest : Bytes}
    (stream : Outcome.of Compression.Zlib.stream file =
      ⟨output, .complete rest⟩) :
    Content.ofZlib file = .ofBytes output :=
  Decompressor.drain_pieces Decompressor.pieceSize_pos stream

end PickleGraph
