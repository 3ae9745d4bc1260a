import PickleGraph.Compression.Deflate
import PickleGraph.Proofs.Actions

/-!
# Compressed data that goes on

Unpacking does not look ahead: on a tape with more input it does the same until
its own input ends. What has been put out by then is put out in the whole as
well.
-/

namespace PickleGraph.Compression

open Actions

namespace Tape

/-- The tape with more input behind it. -/
def extended (tape : Tape) (more : Bytes) : Tape :=
  { tape with rest := tape.rest ++ more }

/-- How many bits are left. -/
def left (tape : Tape) : Nat :=
  8 * tape.rest.length + tape.bitCount

theorem left_extended (tape : Tape) (more : Bytes) :
    (tape.extended more).left = tape.left + 8 * more.length := by
  show 8 * (tape.rest ++ more).length + tape.bitCount = _
  rw [List.length_append, left]
  omega

/-- The tape has been moved on. Nothing that has been put out is taken back. -/
structure MovesOn (before after : Tape) : Prop where
  output : before.output.toList <+: after.output.toList
  left : after.left ≤ before.left
  bitCount : before.bitCount ≤ 8 → after.bitCount ≤ 8

instance : IsPreorder Tape MovesOn where
  refl _ := ⟨List.prefix_rfl, Nat.le_refl _, id⟩
  trans _ _ _ first second :=
    ⟨first.output.trans second.output, Nat.le_trans second.left first.left,
      second.bitCount ∘ first.bitCount⟩

end Tape

/-- How an action ends on a tape, and how it ends on one that goes on. -/
inductive Agrees {α : Type} (more : Bytes) :
    EStateM.Result Stop Tape α → EStateM.Result Stop Tape α → Prop
  | ok (result : α) (after : Tape) :
      Agrees more (.ok result after) (.ok result (after.extended more))
  | damaged (after further : Tape) :
      Agrees more (.error .damaged after) (.error .damaged further)
  | truncated {after : Tape} {whole : EStateM.Result Stop Tape α} :
      after.output.toList <+: (finalState whole).output.toList →
      Agrees more (.error .truncated after) whole

/-- The action does not look ahead and moves its tape on. -/
structure Steady {α : Type} (action : Unpacking α) : Prop where
  agrees : ∀ (more : Bytes) (tape : Tape), tape.bitCount ≤ 8 →
    Agrees more (action tape) (action (tape.extended more))
  movesOn : Moves Tape.MovesOn action

/-- The action takes at least one bit. -/
def Takes {α : Type} (action : Unpacking α) : Prop :=
  ∀ tape result after, action tape = .ok result after →
    after.left < tape.left

namespace Takes

variable {α β : Type}

theorem throw (stop : Stop) :
    Takes (MonadExcept.throw stop : Unpacking α) := by
  rintro _ _ _ ⟨⟩

theorem bind {action : Unpacking α} {next : α → Unpacking β}
    (takes : Takes action) (steady : ∀ value, Steady (next value)) :
    Takes (action >>= next) := by
  intro tape result after success
  obtain ⟨value, middle, early, late⟩ := bind_eq_ok_iff.mp success
  have moved := (steady value).movesOn middle
  rw [late] at moved
  exact Nat.lt_of_le_of_lt moved.left (takes tape value middle early)

end Takes

namespace Steady

variable {α β : Type}

theorem pure (result : α) : Steady (Pure.pure result : Unpacking α) where
  agrees _ tape _ := .ok result tape
  movesOn := .pure result

theorem damaged : Steady (throw .damaged : Unpacking α) where
  agrees more tape _ := .damaged tape (tape.extended more)
  movesOn := .throw _

theorem bind {action : Unpacking α} {next : α → Unpacking β}
    (first : Steady action) (second : ∀ value, Steady (next value)) :
    Steady (action >>= next) where
  agrees more tape sound := by
    have agrees := first.agrees more tape sound
    have moved := first.movesOn tape
    cases outcome : action tape with
    | ok value middle =>
        rw [outcome] at agrees moved
        rw [bind_of_eq_ok outcome]
        generalize whole : action (tape.extended more) = ended at agrees
        cases agrees
        rw [bind_of_eq_ok whole]
        exact (second value).agrees more middle (moved.bitCount sound)
    | error stop middle =>
        rw [outcome] at agrees
        rw [bind_of_eq_error outcome]
        generalize whole : action (tape.extended more) = ended at agrees
        cases agrees with
        | damaged after further =>
            rw [bind_of_eq_error whole]
            exact .damaged _ _
        | truncated kept =>
            refine .truncated (kept.trans ?_)
            rw [← whole]
            have onward : Tape.MovesOn
                (finalState (action (tape.extended more)))
                (finalState ((action >>= next) (tape.extended more))) :=
              Moves.bind_from (refl_of Tape.MovesOn _)
                fun value => (second value).movesOn
            exact onward.output
  movesOn := .bind first.movesOn fun value => (second value).movesOn

/-- A look at what does not depend on the input behind. -/
theorem get {next : Tape → Unpacking β}
    (same : ∀ tape more, next (tape.extended more) = next tape)
    (steady : ∀ tape, Steady (next tape)) :
    Steady (MonadState.get >>= next) where
  agrees more tape sound := by
    rw [get_bind, get_bind, same]
    exact (steady tape).agrees more tape sound
  movesOn tape := (steady tape).movesOn tape

theorem change {update : Tape → Tape}
    (commutes : ∀ tape more,
      update (tape.extended more) = (update tape).extended more)
    (moves : ∀ tape, Tape.MovesOn tape (update tape)) :
    Steady (modify update : Unpacking Unit) where
  agrees more tape _ := by
    show Agrees more (.ok () (update tape))
      (.ok () (update (tape.extended more)))
    rw [commutes]
    exact .ok () _
  movesOn := moves

theorem require (rule : Prop) [Decidable rule] :
    Steady (Compression.require rule) := by
  unfold Compression.require
  split
  · exact .pure ()
  · exact .damaged

theorem mapM {items : List α} {action : α → Unpacking β}
    (steady : ∀ item, Steady (action item)) : Steady (items.mapM action) := by
  induction items with
  | nil => exact .pure []
  | cons item rest inductionHypothesis =>
      rw [List.mapM_cons]
      exact .bind (steady item) fun value =>
        .bind inductionHypothesis fun others => .pure _

/-! ## Octets -/

theorem octet : Steady Unpacking.octet where
  agrees more tape _ := by
    obtain ⟨rest, bits, bitCount, output⟩ := tape
    cases rest with
    | nil =>
        refine .truncated ?_
        cases more <;> exact List.prefix_rfl
    | cons byte rest => exact .ok byte _
  movesOn tape := by
    obtain ⟨rest, bits, bitCount, output⟩ := tape
    cases rest with
    | nil => exact refl_of Tape.MovesOn _
    | cons byte rest =>
        refine ⟨List.prefix_rfl, ?_, id⟩
        show 8 * rest.length + bitCount ≤
          8 * (rest.length + 1) + bitCount
        omega

theorem octets (count : Nat) : Steady (Unpacking.octets count) where
  agrees more tape _ := by
    have same : ∀ tape : Tape,
        (finalState (Unpacking.octets count tape)).output = tape.output := by
      intro tape
      unfold Unpacking.octets
      split <;> rfl
    by_cases short : tape.rest.length < count
    · have ended : Unpacking.octets count tape =
          .error .truncated { tape with rest := [] } := if_pos short
      rw [ended]
      refine .truncated ?_
      rw [same]
      exact List.prefix_rfl
    · have enough : count ≤ tape.rest.length := Nat.le_of_not_lt short
      have longer : ¬ (tape.extended more).rest.length < count := by
        unfold Tape.extended
        rw [List.length_append]
        omega
      have part : Unpacking.octets count tape =
          .ok (tape.rest.take count)
            { tape with rest := tape.rest.drop count } := if_neg short
      have whole : Unpacking.octets count (tape.extended more) =
          .ok (tape.rest.take count)
            (Tape.extended { tape with rest := tape.rest.drop count }
              more) := by
        unfold Unpacking.octets
        rw [if_neg longer]
        unfold Tape.extended
        rw [List.take_append_of_le_length enough,
          List.drop_append_of_le_length enough]
      rw [part, whole]
      exact .ok _ _
  movesOn tape := by
    unfold Unpacking.octets
    split
    · refine ⟨List.prefix_rfl, ?_, id⟩
      unfold Tape.left
      dsimp only [finalState, List.length_nil]
      omega
    · refine ⟨List.prefix_rfl, ?_, id⟩
      unfold Tape.left
      dsimp only [finalState]
      rw [List.length_drop]
      omega

theorem numberLE (width : Nat) : Steady (Unpacking.numberLE width) :=
  .bind (octets width) fun _ => .pure _

theorem numberBE (width : Nat) : Steady (Unpacking.numberBE width) :=
  .bind (octets width) fun _ => .pure _

theorem align : Steady Unpacking.align :=
  .change (fun _ _ => rfl) fun _ =>
    ⟨List.prefix_rfl, Nat.le_add_right _ _, fun _ => Nat.zero_le 8⟩

/-! ## Bits -/

theorem refill : Steady Unpacking.refill where
  agrees more tape _ := by
    obtain ⟨rest, bits, bitCount, output⟩ := tape
    cases bitCount with
    | succ bitCount => exact .ok () _
    | zero =>
        cases rest with
        | nil =>
            refine .truncated ?_
            cases more <;> exact List.prefix_rfl
        | cons byte rest => exact .ok () _
  movesOn tape := by
    obtain ⟨rest, bits, bitCount, output⟩ := tape
    cases bitCount with
    | succ bitCount => exact refl_of Tape.MovesOn _
    | zero =>
        cases rest with
        | nil => exact refl_of Tape.MovesOn _
        | cons byte rest =>
            refine ⟨List.prefix_rfl, ?_, fun _ => Nat.le_refl 8⟩
            show 8 * rest.length + 8 ≤ 8 * (rest.length + 1) + 0
            omega

theorem lowBit : Steady Unpacking.lowBit := by
  refine .bind refill fun _ => .get (fun _ _ => rfl) fun tape => ?_
  refine .bind (.change (fun _ _ => rfl) fun tape => ?_) fun _ => .pure _
  refine ⟨List.prefix_rfl, ?_, fun sound => ?_⟩
  · exact Nat.add_le_add_left (Nat.sub_le _ _) _
  · exact Nat.le_trans (Nat.sub_le _ _) sound

theorem lowBits (width : Nat) : Steady (Unpacking.lowBits width) := by
  induction width with
  | zero => exact .pure 0
  | succ width inductionHypothesis =>
      exact .bind lowBit fun bit =>
        .bind inductionHypothesis fun others => .pure _

end Steady

/-- A bit that is read has been there. -/
theorem takes_lowBit : Takes Unpacking.lowBit := by
  intro tape result after success
  obtain ⟨_, middle, refilled, rest⟩ := bind_eq_ok_iff.mp success
  have moved := Steady.refill.movesOn tape
  rw [refilled] at moved
  have filled : middle.bitCount ≠ 0 := by
    obtain ⟨rest, bits, bitCount, output⟩ := tape
    cases bitCount with
    | succ bitCount =>
        cases refilled
        exact Nat.succ_ne_zero _
    | zero =>
        cases rest with
        | nil => cases refilled
        | cons byte rest =>
            cases refilled
            exact Nat.succ_ne_zero _
  cases rest
  have fewer : 8 * middle.rest.length + (middle.bitCount - 1) <
      middle.left := by
    unfold Tape.left
    omega
  exact Nat.lt_of_lt_of_le fewer moved.left

/-! ## Output -/

namespace Steady

theorem emit (byte : UInt8) : Steady (Unpacking.emit byte) := by
  refine .change (fun _ _ => rfl) fun tape => ⟨?_, Nat.le_refl _, id⟩
  rw [Array.toList_push]
  exact List.prefix_append _ _

theorem copyOctet : Steady Unpacking.copyOctet :=
  .bind octet emit

theorem repeatOctet (distance : Nat) :
    Steady (Unpacking.repeatOctet distance) := by
  refine .change (fun _ _ => rfl) fun tape => ⟨?_, Nat.le_refl _, id⟩
  rw [Array.toList_push]
  exact List.prefix_append _ _

/-! ## Repetition -/

theorem times {round : Unpacking Unit} (steady : Steady round)
    (count : Nat) : Steady (Compression.times count round) := by
  induction count with
  | zero => exact .pure ()
  | succ count inductionHypothesis =>
      have unfolded : Compression.times (count + 1) round =
          round >>= fun _ => Compression.times count round := by
        funext tape
        rw [Compression.times]
        dsimp only
        cases outcome : round tape with
        | ok result after => rw [bind_of_eq_ok outcome]
        | error stop after => rw [bind_of_eq_error outcome]
      rw [unfolded]
      exact .bind steady fun _ => inductionHypothesis

section UntilDone

variable {round : Unpacking Bool}

theorem movesOn_untilDone (steady : Steady round) (bound : Nat) :
    Moves Tape.MovesOn (Compression.untilDone bound round) := by
  induction bound with
  | zero => exact .throw _
  | succ bound inductionHypothesis =>
      intro tape
      have moved := steady.movesOn tape
      unfold Compression.untilDone
      cases outcome : round tape with
      | error stop after =>
          rw [outcome] at moved
          exact moved
      | ok isDone after =>
          rw [outcome] at moved
          cases isDone with
          | true => exact moved
          | false =>
              exact trans_of Tape.MovesOn moved (inductionHypothesis after)

/-- The bound on the rounds is not met, for every round but the last takes a
bit. -/
theorem agrees_untilDone (steady : Steady round) (takes : Takes round)
    {bound further : Nat} {more : Bytes} {tape : Tape}
    (sound : tape.bitCount ≤ 8) (enough : tape.left < bound)
    (alsoEnough : (tape.extended more).left < further) :
    Agrees more (Compression.untilDone bound round tape)
      (Compression.untilDone further round (tape.extended more)) := by
  induction bound generalizing further tape with
  | zero => exact absurd enough (Nat.not_lt_zero _)
  | succ bound inductionHypothesis =>
      obtain ⟨further, rfl⟩ :=
        Nat.exists_eq_succ_of_ne_zero (Nat.ne_zero_of_lt alsoEnough)
      have agrees := steady.agrees more tape sound
      have moved := steady.movesOn tape
      unfold Compression.untilDone
      cases outcome : round tape with
      | ok isDone after =>
          rw [outcome] at agrees moved
          generalize round (tape.extended more) = whole at agrees
          cases agrees
          cases isDone with
          | true => exact .ok () after
          | false =>
              have fewer := takes tape false after outcome
              rw [Tape.left_extended] at alsoEnough
              refine inductionHypothesis (moved.bitCount sound) (by omega) ?_
              rw [Tape.left_extended]
              omega
      | error stop after =>
          rw [outcome] at agrees
          generalize whole : round (tape.extended more) = ended at agrees
          cases agrees with
          | damaged after further => exact .damaged _ _
          | truncated kept =>
              refine .truncated (kept.trans ?_)
              cases ended with
              | error stop last => exact List.prefix_rfl
              | ok isDone last =>
                  cases isDone with
                  | true => exact List.prefix_rfl
                  | false =>
                      exact (movesOn_untilDone steady further last).output

theorem untilDone (steady : Steady round) (takes : Takes round) :
    Steady (Deflate.roundBound >>= fun bound =>
      Compression.untilDone bound round) where
  agrees more tape sound := by
    have enough : tape.left < 8 * tape.rest.length + 9 := by
      unfold Tape.left
      omega
    have alsoEnough : (tape.extended more).left <
        8 * (tape.extended more).rest.length + 9 := by
      have sound : (tape.extended more).bitCount ≤ 8 := sound
      unfold Tape.left
      omega
    exact agrees_untilDone steady takes sound enough alsoEnough
  movesOn tape := movesOn_untilDone steady _ tape

theorem untilDone_bind {α : Type} (steady : Steady round)
    (takes : Takes round) {next : Unit → Unpacking α}
    (behind : ∀ value, Steady (next value)) :
    Steady (Deflate.roundBound >>= fun bound =>
      Compression.untilDone bound round >>= next) := by
  rw [← bind_assoc]
  exact .bind (untilDone steady takes) behind

end UntilDone

/-! ## Prefix codes -/

theorem symbolFrom (levels : List (Array Nat)) (excess : Nat) :
    Steady (PrefixCode.symbolFrom Unpacking.lowBit levels excess) := by
  induction levels generalizing excess with
  | nil => exact .damaged
  | cons level deeper inductionHypothesis =>
      refine .bind lowBit fun bit => ?_
      dsimp only
      split
      · exact .pure _
      · exact inductionHypothesis _

theorem symbol (code : PrefixCode) :
    Steady (code.symbol Unpacking.lowBit) :=
  symbolFrom code.levels 0

end Steady

theorem takes_symbol (code : PrefixCode) :
    Takes (code.symbol Unpacking.lowBit) := by
  unfold PrefixCode.symbol
  cases code.levels with
  | nil => exact .throw _
  | cons level deeper =>
      refine .bind takes_lowBit fun bit => ?_
      dsimp only
      split
      · exact .pure _
      · exact .symbolFrom _ _

end PickleGraph.Compression

/-!
## Zlib streams that are cut off

A zlib stream is unpacked as it is read: the first part of a stream is a stream
that is cut off, whatever the part, and gives the first part of the output.
-/

namespace PickleGraph.Compression

open Actions

/-! ## Deflated data -/

namespace Deflate

open Unpacking

theorem steady_moreLengths (code : PrefixCode) (wanted : Nat)
    (known : List Nat) : Steady (moreLengths code wanted known) := by
  refine .bind (.symbol code) fun symbol => ?_
  have behind : ∀ more : List Nat, Steady (do
      require (known.length + more.length ≤ wanted)
      return known ++ more) :=
    fun more => .bind (.require _) fun _ => .pure _
  dsimp only
  split
  · refine .bind (.lowBits 2) fun extra => ?_
    split
    · exact .bind (.pure _) behind
    · exact .bind .damaged behind
  · exact .bind (.lowBits 3) fun extra => .bind (.pure _) behind
  · exact .bind (.lowBits 7) fun extra => .bind (.pure _) behind
  · exact .bind (.pure _) behind

theorem steady_codeLengths (code : PrefixCode) (wanted bound : Nat)
    (known : List Nat) : Steady (codeLengths code wanted bound known) := by
  induction bound generalizing known with
  | zero => exact .pure known
  | succ bound inductionHypothesis =>
      unfold codeLengths
      split
      · exact .bind (steady_moreLengths code wanted known)
          inductionHypothesis
      · exact .pure known

theorem steady_statedCodes : Steady statedCodes := by
  refine .bind (.lowBits 5) fun mainExtra => ?_
  refine .bind (.lowBits 5) fun distanceExtra => ?_
  refine .bind (.lowBits 4) fun lengthExtra => ?_
  refine .bind (.require _) fun _ => ?_
  refine .bind (.mapM fun _ => .lowBits 3) fun written => ?_
  split
  · exact .damaged
  · refine .bind (steady_codeLengths _ _ _ _) fun lengths => ?_
    refine .bind (.require _) fun _ => ?_
    exact .bind (.require _) fun _ => .pure _

theorem steady_repetitionLength (symbol : Nat) :
    Steady (repetitionLength symbol) := by
  refine .bind (.require _) fun _ => ?_
  by_cases longest : symbol = 285
  · rw [if_pos longest]
    exact .pure 258
  · rw [if_neg longest]
    generalize steps 4 (symbol - 257) = step
    exact .bind (.lowBits _) fun _ => .pure _

theorem steady_repetitionDistance (symbol : Nat) :
    Steady (repetitionDistance symbol) :=
  .bind (.require _) fun _ => .bind (.lowBits _) fun _ => .pure _

/-- What follows the first symbol of an element. -/
theorem steady_afterSymbol (codes : Codes) (symbol : Nat) :
    Steady (do
      if symbol < blockEnd then
        emit (UInt8.ofNat symbol)
        return false
      else if symbol = blockEnd then
        return true
      else
        let length ← repetitionLength symbol
        let distance ← repetitionDistance (← codes.distance.symbol lowBit)
        require (distance ≤ (← get).output.size)
        times length (repeatOctet distance)
        return false) := by
  split
  · exact .bind (.emit _) fun _ => .pure _
  split
  · exact .pure _
  refine .bind (steady_repetitionLength symbol) fun length => ?_
  refine .bind (.symbol codes.distance) fun found => ?_
  refine .bind (steady_repetitionDistance found) fun distance => ?_
  refine .get (fun _ _ => rfl) fun tape => .bind (.require _) fun _ => ?_
  exact .bind (.times (.repeatOctet distance) length) fun _ => .pure _

theorem steady_element (codes : Codes) : Steady (element codes) :=
  .bind (.symbol codes.main) (steady_afterSymbol codes)

theorem takes_element (codes : Codes) : Takes (element codes) :=
  .bind (takes_symbol codes.main) (steady_afterSymbol codes)

theorem steady_storedBlock : Steady storedBlock :=
  .bind .align fun _ => .bind (.numberLE 2) fun length =>
    .bind (.numberLE 2) fun _ => .bind (.require _) fun _ =>
      .times .copyOctet length

/-- The elements of a block, up to its end. -/
theorem steady_elements (codes : Codes) (isLast : Bool) :
    Steady (do
      untilDone (← roundBound) (element codes)
      return isLast) :=
  .untilDone_bind (steady_element codes) (takes_element codes)
    fun _ => .pure _

/-- What follows the first bit of a block. -/
theorem steady_afterFlag (isLast : Bool) :
    Steady (do
      match ← lowBits 2 with
      | 0 => storedBlock
      | 1 => untilDone (← roundBound) (element fixedCodes)
      | 2 =>
          let codes ← statedCodes
          untilDone (← roundBound) (element codes)
      | _ => throw .damaged
      return isLast) := by
  refine .bind (.lowBits 2) fun kind => ?_
  split
  · exact .bind steady_storedBlock fun _ => .pure _
  · exact steady_elements fixedCodes isLast
  · exact .bind steady_statedCodes fun codes => steady_elements codes isLast
  · exact .bind .damaged fun _ => .pure _

theorem steady_block : Steady block :=
  .bind .lowBit fun bit => steady_afterFlag (bit = 1)

theorem takes_block : Takes block :=
  .bind takes_lowBit fun bit => steady_afterFlag (bit = 1)

theorem steady_blocks : Steady blocks :=
  .untilDone_bind steady_block takes_block fun _ => .align

end Deflate

/-! ## Zlib -/

namespace Zlib

open Unpacking

theorem steady_header : Steady header := by
  refine .bind .octet fun method => .bind .octet fun flags => ?_
  refine .bind (.require _) fun _ => .bind (.require _) fun _ => ?_
  split
  · exact .bind (.octets 4) fun _ => .damaged
  · exact .pure _

theorem steady_stream : Steady stream := by
  refine .bind steady_header fun _ => .bind Deflate.steady_blocks fun _ => ?_
  refine .bind (.numberBE 4) fun stated => ?_
  exact .get (fun _ _ => rfl) fun tape => .require _

end Zlib

end PickleGraph.Compression
