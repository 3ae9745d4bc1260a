import Mathlib.Data.List.Induction
import PickleGraph.Proofs.Storage.Feeding

/-!
# Packed data

A decompressor may give no output for a piece, and it finishes where the packed
data end, which need not be where the file does. Wherever a file is cut into
pieces, feeding them gives the data, and a file that lacks the end of the packed
data ends too early.
-/

namespace PickleGraph

open Actions

namespace Decompressor

variable {decompressor : Decompressor}

/-! ## Packed data -/

/-- Feeds all of some pieces. The outputs are listed one by one. -/
def feedAll (decompressor : Decompressor) (state : decompressor.State) :
    List Bytes → Except SourceFault (List Bytes × decompressor.State)
  | [] => .ok ([], state)
  | piece :: pieces => do
      let (output, state) ← decompressor.feed state piece
      let (outputs, state) ← decompressor.feedAll state pieces
      return (output :: outputs, state)

/-- The decompressor unpacks some packed data. However these are cut into pieces,
it finishes with the piece that brings their end, and not before. Its outputs,
some of which may be empty, make up the data by then. Octets behind the end do no
harm. -/
structure Unpacks (decompressor : Decompressor) (packed data : Bytes) : Prop
    where
  isPacked : packed ≠ []
  awaits : ∀ {pieces outputs more state},
    packed = pieces.flatten ++ more → more ≠ [] →
    decompressor.feedAll decompressor.start pieces = .ok (outputs, state) →
    decompressor.isFinished state = false
  finishes : ∀ {pieces more}, packed = pieces.flatten ++ more → more ≠ [] →
    ∀ rest, ∃ outputs state,
      decompressor.feedAll decompressor.start (pieces ++ [more ++ rest]) =
        .ok (outputs, state) ∧
      outputs.flatten = data ∧ decompressor.isFinished state = true

theorem feedAll_concat_eq_ok_iff {state last : decompressor.State}
    {pieces : List Bytes} {piece : Bytes} {outputs : List Bytes} :
    decompressor.feedAll state (pieces ++ [piece]) = .ok (outputs, last) ↔
      ∃ earlier middle output,
        decompressor.feedAll state pieces = .ok (earlier, middle) ∧
        decompressor.feed middle piece = .ok (output, last) ∧
        outputs = earlier ++ [output] := by
  induction pieces generalizing state outputs with
  | nil =>
      rw [List.nil_append, feedAll]
      constructor
      · intro success
        obtain ⟨⟨output, next⟩, fed, rest⟩ :=
          except_bind_eq_ok_iff.mp success
        cases rest
        exact ⟨[], state, output, rfl, fed, rfl⟩
      · rintro ⟨earlier, middle, output, start, fed, rfl⟩
        cases start
        exact except_bind_eq_ok_iff.mpr ⟨_, fed, rfl⟩
  | cons first pieces inductionHypothesis =>
      rw [List.cons_append, feedAll, feedAll]
      constructor
      · intro success
        obtain ⟨⟨output, next⟩, fed, rest⟩ :=
          except_bind_eq_ok_iff.mp success
        obtain ⟨⟨others, end_⟩, fedAll, done⟩ :=
          except_bind_eq_ok_iff.mp rest
        cases done
        obtain ⟨earlier, middle, final, start, fedLast, rfl⟩ :=
          inductionHypothesis.mp fedAll
        refine ⟨output :: earlier, middle, final, ?_, fedLast, rfl⟩
        exact except_bind_eq_ok_iff.mpr
          ⟨_, fed, except_bind_eq_ok_iff.mpr ⟨_, start, rfl⟩⟩
      · rintro ⟨earlier, middle, final, start, fedLast, rfl⟩
        obtain ⟨⟨output, next⟩, fed, rest⟩ := except_bind_eq_ok_iff.mp start
        obtain ⟨⟨others, end_⟩, fedAll, done⟩ :=
          except_bind_eq_ok_iff.mp rest
        cases done
        exact except_bind_eq_ok_iff.mpr ⟨_, fed, except_bind_eq_ok_iff.mpr
          ⟨_, inductionHypothesis.mpr ⟨_, _, _, fedAll, fedLast, rfl⟩, rfl⟩⟩

/-- A cut behind one more piece. -/
theorem cut_concat {packed piece more : Bytes} {fed : List Bytes}
    (cut : packed = fed.flatten ++ (piece ++ more)) :
    packed = (fed ++ [piece]).flatten ++ more := by
  rw [cut, List.flatten_concat, List.append_assoc]

namespace Unpacks

variable {packed data more : Bytes} {fed outputs : List Bytes}
variable {state : decompressor.State}
variable (unpacks : decompressor.Unpacks packed data)

include unpacks

/-- Outputs before the end of the packed data are the first part of the data. -/
theorem outputs_prefix (cut : packed = fed.flatten ++ more)
    (isMore : more ≠ [])
    (given : decompressor.feedAll decompressor.start fed =
      .ok (outputs, state)) : outputs.flatten <+: data := by
  obtain ⟨all, _, fedAll, rfl, _⟩ := unpacks.finishes cut isMore []
  obtain ⟨earlier, _, output, start, _, rfl⟩ :=
    feedAll_concat_eq_ok_iff.mp fedAll
  cases given.symm.trans start
  exact ⟨output, List.flatten_concat.symm⟩

/-- A piece that does not bring the end is fed. -/
theorem feed_part {piece : Bytes} (cut : packed = fed.flatten ++ (piece ++ more))
    (isMore : more ≠ [])
    (given : decompressor.feedAll decompressor.start fed =
      .ok (outputs, state)) :
    ∃ output next, decompressor.feed state piece = .ok (output, next) ∧
      decompressor.feedAll decompressor.start (fed ++ [piece]) =
        .ok (outputs ++ [output], next) := by
  obtain ⟨all, _, fedAll, _, _⟩ :=
    unpacks.finishes (cut_concat cut) isMore []
  obtain ⟨earlier, middle, _, start, _, rfl⟩ :=
    feedAll_concat_eq_ok_iff.mp fedAll
  obtain ⟨known, before, output, startKnown, fedPiece, rfl⟩ :=
    feedAll_concat_eq_ok_iff.mp start
  cases given.symm.trans startKnown
  exact ⟨output, middle, fedPiece, start⟩

/-- The piece that brings the end is fed, and it is the last one. -/
theorem feed_last (cut : packed = fed.flatten ++ more) (isMore : more ≠ [])
    (given : decompressor.feedAll decompressor.start fed =
      .ok (outputs, state)) (rest : Bytes) :
    ∃ output next,
      decompressor.feed state (more ++ rest) = .ok (output, next) ∧
      outputs.flatten ++ output = data ∧
      decompressor.isFinished next = true := by
  obtain ⟨all, last, fedAll, rfl, isFinished⟩ :=
    unpacks.finishes cut isMore rest
  obtain ⟨earlier, middle, output, start, fedLast, rfl⟩ :=
    feedAll_concat_eq_ok_iff.mp fedAll
  cases given.symm.trans start
  refine ⟨output, last, fedLast, ?_, isFinished⟩
  rw [List.flatten_concat]

/-- Pieces that bring the end of the packed data give the rest of the data,
whatever follows in them. -/
theorem drain_eq (cut : packed = fed.flatten ++ more) (isMore : more ≠ [])
    (given : decompressor.feedAll decompressor.start fed =
      .ok (outputs, state)) {trailing : Bytes} {files : List Bytes}
    (brings : more ++ trailing = files.flatten) :
    ∃ rest, outputs.flatten ++ rest = data ∧
      decompressor.drain state files = .ofBytes rest := by
  induction files generalizing fed outputs state more with
  | nil => exact absurd (List.append_eq_nil_iff.mp brings).1 isMore
  | cons piece files inductionHypothesis =>
      have unfinished := unpacks.awaits cut isMore given
      -- The piece brings the end of the packed data, or it leaves some of them.
      have split : (∃ behind, piece = more ++ behind) ∨
          ∃ left, left ≠ [] ∧ more = piece ++ left ∧
            left ++ trailing = files.flatten := by
        rcases List.append_eq_append_iff.mp brings with
          ⟨behind, same, _⟩ | ⟨left, same, later⟩
        · exact .inl ⟨behind, same⟩
        · by_cases isLeft : left = []
          · exact .inl ⟨[], by rw [same, isLeft, List.append_nil,
              List.append_nil]⟩
          · exact .inr ⟨left, isLeft, same, later.symm⟩
      rcases split with ⟨behind, rfl⟩ | ⟨left, isLeft, rfl, later⟩
      · obtain ⟨output, next, fedLast, whole, isFinished⟩ :=
          unpacks.feed_last cut isMore given behind
        refine ⟨output, whole, ?_⟩
        rw [drain_of_feed unfinished fedLast, drain_of_isFinished isFinished]
        exact congrArg Content.ofBytes (List.append_nil output)
      · obtain ⟨output, next, fedPiece, givenLater⟩ :=
          unpacks.feed_part cut isLeft given
        obtain ⟨rest, whole, drained⟩ :=
          inductionHypothesis (cut_concat cut) isLeft givenLater later
        rw [List.flatten_concat, List.append_assoc] at whole
        refine ⟨output ++ rest, whole, ?_⟩
        rw [drain_of_feed unfinished fedPiece, drained]
        rfl

/-- Pieces that end before the packed data do give some of the data, and then the
file has ended too early. -/
theorem drain_cut {missing : Bytes} (isMissing : missing ≠ [])
    {files : List Bytes}
    (cut : packed = fed.flatten ++ (files.flatten ++ missing))
    (given : decompressor.feedAll decompressor.start fed =
      .ok (outputs, state)) :
    ∃ rest, outputs.flatten ++ rest <+: data ∧
      decompressor.drain state files = ⟨rest, some .unexpectedEnd⟩ := by
  induction files generalizing fed outputs state with
  | nil =>
      have unfinished := unpacks.awaits cut isMissing given
      refine ⟨[], ?_, ?_⟩
      · rw [List.append_nil]
        exact unpacks.outputs_prefix cut isMissing given
      · rw [drain, if_neg (ne_true_of_eq_false unfinished)]
  | cons piece files inductionHypothesis =>
      have isMore : files.flatten ++ missing ≠ [] :=
        List.append_ne_nil_of_right_ne_nil _ isMissing
      rw [List.flatten_cons, List.append_assoc] at cut
      have unfinished := unpacks.awaits cut
        (List.append_ne_nil_of_right_ne_nil _ isMore) given
      obtain ⟨output, next, fedPiece, givenLater⟩ :=
        unpacks.feed_part cut isMore given
      obtain ⟨rest, isPrefix, drained⟩ :=
        inductionHypothesis (cut_concat cut) givenLater
      rw [List.flatten_concat, List.append_assoc] at isPrefix
      refine ⟨output ++ rest, isPrefix, ?_⟩
      rw [drain_of_feed unfinished fedPiece, drained]
      rfl

/-- A file that begins with packed data has the data as its content. -/
theorem content_eq (trailing : Bytes) :
    decompressor.content (packed ++ trailing) = .ofBytes data := by
  have cut : packed = ([] : List Bytes).flatten ++ packed := rfl
  obtain ⟨rest, whole, drained⟩ := unpacks.drain_eq cut unpacks.isPacked rfl
    (flatten_pieces pieceSize_pos (packed ++ trailing)).symm
  exact drained.trans (congrArg Content.ofBytes whole)

/-- A file that ends before its packed data do has a first part of the data as
its content, and it ends too early. -/
theorem content_cut {part : Bytes} (isPart : part <+: packed)
    (isCut : part ≠ packed) :
    ∃ rest, rest <+: data ∧
      decompressor.content part = ⟨rest, some .unexpectedEnd⟩ := by
  obtain ⟨missing, rfl⟩ := isPart
  have isMissing : missing ≠ [] := by
    rintro rfl
    exact isCut (List.append_nil part).symm
  have cut : part ++ missing = ([] : List Bytes).flatten ++
      ((pieces pieceSize part).flatten ++ missing) := by
    rw [flatten_pieces pieceSize_pos]
    rfl
  exact unpacks.drain_cut isMissing cut rfl

end Unpacks

/-! ## Zlib streams -/

section Outcomes

open Compression

variable {action : Unpacking Unit} {packed data : Bytes}

/-- A part of compressed data that lacks their end is cut off. -/
theorem outcome_cut (steady : Steady action)
    (complete : Outcome.of action packed = ⟨data, .complete []⟩)
    {part more : Bytes} (cut : packed = part ++ more) (isMore : more ≠ []) :
    ∃ output, Outcome.of action part = ⟨output, .truncated⟩ ∧
      output <+: data := by
  subst cut
  rcases steady.outcome_part part more with
    ⟨output, rest, _, whole⟩ | ⟨_, _, _, whole⟩ | ⟨output, isCut, isPrefix⟩
  · rw [whole, Outcome.mk.injEq, Ending.complete.injEq] at complete
    exact absurd (List.append_eq_nil_iff.mp complete.2).2 isMore
  · cases whole.symm.trans complete
  · rw [complete] at isPrefix
    exact ⟨output, isCut, isPrefix⟩

/-- Pieces that lack the end are all fed, and they give what they would give as
one piece. -/
theorem feedAll_ofOutcome (steady : Steady action) (fault : SourceFault)
    (nothing : Outcome.of action [] = ⟨[], .truncated⟩)
    (complete : Outcome.of action packed = ⟨data, .complete []⟩)
    {fed : List Bytes} {more : Bytes} (cut : packed = fed.flatten ++ more)
    (isMore : more ≠ []) :
    ∃ outputs, Outcome.of action fed.flatten =
        ⟨outputs.flatten, .truncated⟩ ∧
      (ofOutcome (Outcome.of action) fault).feedAll ({} : Intake) fed =
        .ok (outputs,
          (⟨fed.flatten, outputs.flatten.length, false⟩ : Intake)) := by
  -- From the last piece on, because the outputs before it are known by then.
  induction fed using List.reverseRecOn generalizing more with
  | nil => exact ⟨[], nothing, rfl⟩
  | append_singleton fed piece inductionHypothesis =>
      rw [List.flatten_concat] at cut ⊢
      obtain ⟨outputs, early, fedEarly⟩ := inductionHypothesis
        (cut.trans (List.append_assoc _ _ _))
        (List.append_ne_nil_of_right_ne_nil piece isMore)
      obtain ⟨output, late, _⟩ := outcome_cut steady complete cut isMore
      have grown := steady.output_prefix early piece
      rw [late] at grown
      have joined : (outputs ++ [output.drop outputs.flatten.length]).flatten =
          output := by
        rw [List.flatten_concat]
        exact List.prefix_iff_eq_append.mp grown
      refine ⟨_, joined.symm ▸ late, feedAll_concat_eq_ok_iff.mpr
        ⟨outputs, _, _, fedEarly, ?_, rfl⟩⟩
      rw [joined]
      exact feed_of_truncated late

theorem unpacks_ofOutcome (steady : Steady action) (fault : SourceFault)
    (nothing : Outcome.of action [] = ⟨[], .truncated⟩)
    (complete : Outcome.of action packed = ⟨data, .complete []⟩) :
    (ofOutcome (Outcome.of action) fault).Unpacks packed data where
  isPacked := by
    rintro rfl
    cases nothing.symm.trans complete
  awaits cut isMore given := by
    obtain ⟨_, _, fedAll⟩ :=
      feedAll_ofOutcome steady fault nothing complete cut isMore
    cases given.symm.trans fedAll
    rfl
  finishes := by
    intro fed more cut isMore rest
    obtain ⟨outputs, early, fedEarly⟩ :=
      feedAll_ofOutcome steady fault nothing complete cut isMore
    obtain ⟨_, first, isPrefix⟩ := outcome_cut steady complete cut isMore
    cases first.symm.trans early
    have whole : Outcome.of action (fed.flatten ++ (more ++ rest)) =
        ⟨data, .complete rest⟩ := by
      rw [← List.append_assoc, ← cut]
      exact steady.outcome_of_complete complete rest
    refine ⟨_, _, feedAll_concat_eq_ok_iff.mpr
      ⟨outputs, _, _, fedEarly, feed_of_complete whole, rfl⟩, ?_, rfl⟩
    rw [List.flatten_concat]
    exact List.prefix_iff_eq_append.mp isPrefix

end Outcomes

/-- A complete zlib stream is unpacked. -/
theorem zlib_unpacks {packed data : Bytes}
    (complete : Compression.Outcome.of Compression.Zlib.stream packed =
      ⟨data, .complete []⟩) : zlib.Unpacks packed data :=
  unpacks_ofOutcome Compression.Zlib.steady_stream .damagedDeflate stream_nil
    complete

end Decompressor

end PickleGraph
