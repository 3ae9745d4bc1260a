import PickleGraph.Proofs.Cut.Reader
import PickleGraph.Proofs.Decoding.Failure

/-!
# Refusals on readers in memory

A reader of bytes in memory gives what it was asked for, reports that the stream
is truncated, or refuses a count that is out of range. When a sequence of actions
ends with a refusal, one of them was refused where those before it led.
-/

namespace PickleGraph

open Actions

/-! ## Failures -/

namespace Failure

/-- A fault of the source, which is no matter of the stream. -/
def isFault : Failure → Bool
  | .source _ => true
  | .defect .. | .refused _ => false

/-- A failure of a payload: a defect of an array payload, or a refusal. -/
def IsOfPayload : Failure → Prop
  | .defect cause _ => cause.failureClass = .corruptPayload
  | .refused _ => True
  | .source _ => False

end Failure

/-- An outcome without faults of the source. -/
abbrev IsFaultless {α : Type} (outcome : Except Failure α) : Prop :=
  Rejects (·.isFault = false) outcome

theorem isFaultless_lift {α : Type} (outcome : Except Refusal α) :
    IsFaultless (liftM outcome : Except Failure α) := by
  show Rejects _ (outcome.mapError Failure.refused)
  exact .mapError fun _ _ => rfl

/-! ## Readers in memory -/

namespace Reader

/-- Whether the bytes below all cursors are in memory. -/
def isInMemory : Reader → Bool
  | file _ _ ending => ending.isNone
  | cursor below _ => below.isInMemory
  | unframer below _ _ => below.isInMemory

theorem countLimit_le_iff (count : Nat) :
    countLimit ≤ (count : Int) ↔ 2 ^ 63 ≤ count := by
  unfold countLimit
  omega

/-- How a reader fails that has been asked for so many bytes. -/
def FailsInMemory (count : Nat) (failure : Failure) : Prop :=
  failure.IsOf .truncatedStream ∧ count < 2 ^ 63 ∨
    failure = .refused .outOfRange ∧ 2 ^ 63 ≤ count

/-- A reader in memory that has been asked for bytes is one still. -/
abbrev Answers (count : Nat) :
    EStateM.Result Failure Reader Bytes → Prop :=
  EndsIn (fun _ after => after.isInMemory = true ∧ count < 2 ^ 63)
    (fun failure after => after.isInMemory = true ∧
      FailsInMemory count failure)

theorem answers_readFile (count : Nat) (rest : Bytes) (offset : Nat) :
    Answers count (readFile count rest offset none) := by
  unfold readFile
  split
  · next large =>
      exact ⟨rfl, .inr ⟨rfl, (countLimit_le_iff count).mp large⟩⟩
  · next small =>
      refine ⟨rfl, Nat.lt_of_not_le fun exceeds => small ?_⟩
      exact (countLimit_le_iff count).mpr exceeds

theorem Answers.exactly {count : Nat}
    {outcome : EStateM.Result Failure Reader Bytes}
    (answers : Answers count outcome) {rebuild : Reader → Nat → Reader}
    (rebuilt : ∀ below place,
      (rebuild below place).isInMemory = below.isInMemory)
    (position : Nat) :
    Answers count (Reader.exactly count position rebuild outcome) := by
  cases outcome with
  | ok data below =>
      obtain ⟨inMemory, small⟩ := answers
      unfold Reader.exactly
      dsimp only
      split
      · exact ⟨(rebuilt _ _).trans inMemory, .inl ⟨rfl, small⟩⟩
      · exact ⟨(rebuilt _ _).trans inMemory, small⟩
  | error failure below =>
      exact ⟨(rebuilt _ _).trans answers.1, answers.2⟩

theorem answers_read (count : Nat) {reader : Reader}
    (inMemory : reader.isInMemory = true) :
    Answers count (reader.read count) := by
  have natural : ¬ (count : Int) < 0 := by omega
  induction reader with
  | file rest offset ending =>
      cases ending with
      | none => exact answers_readFile count rest offset
      | some fault => cases inMemory
  | cursor below position inductionHypothesis =>
      rw [read, if_neg natural]
      have rebuilt : ∀ below place,
          (cursor below place).isInMemory = below.isInMemory :=
        fun _ _ => rfl
      exact (inductionHypothesis inMemory).exactly rebuilt position
  | unframer below position frame inductionHypothesis =>
      have rebuilt : ∀ below place,
          (unframer below place none).isInMemory = below.isInMemory :=
        fun _ _ => rfl
      have bare := (inductionHypothesis inMemory).exactly rebuilt position
      cases frame with
      | none =>
          rw [read, if_neg natural]
          exact bare
      | some frame =>
          rw [read]
          split
          · next outside =>
              have large : countLimit ≤ (count : Int) := by
                unfold countLimit at outside ⊢
                omega
              exact ⟨inMemory, .inr ⟨rfl, (countLimit_le_iff count).mp large⟩⟩
          · next inside =>
              have small : count < 2 ^ 63 := Nat.lt_of_not_le fun exceeds =>
                inside (.inr ((countLimit_le_iff count).mpr exceeds))
              simp only [Int.toNat_natCast]
              split
              · exact bare
              · split
                · exact ⟨inMemory, .inl ⟨rfl, small⟩⟩
                · exact ⟨inMemory, small⟩

end Reader

namespace Decoding

variable {α β : Type}

/-- A source whose reader is in memory. -/
def InMemory (source : Source) : Prop :=
  source.reader.isInMemory = true

/-- An action on a source in memory: it fails as a payload does. -/
abbrev Reports (action : Decoding α) : Prop :=
  Abides InMemory (fun failure _ => failure.IsOfPayload) action

/-- The action is refused. -/
def Refuses (action : Decoding α) (source : Source) (refusal : Refusal) :
    Prop :=
  ∃ after, action source = .error (.refused refusal) after

variable {source : Source} {refusal : Refusal}

/-! ## Sequences -/

theorem refuses_bind_iff {action : Decoding α} {next : α → Decoding β} :
    Refuses (action >>= next) source refusal ↔
      Refuses action source refusal ∨
        ∃ value middle, action source = .ok value middle ∧
          Refuses (next value) middle refusal := by
  cases outcome : action source with
  | ok value middle =>
      unfold Refuses
      rw [bind_of_eq_ok outcome, outcome]
      constructor
      · rintro ⟨after, refused⟩
        exact .inr ⟨value, middle, rfl, after, refused⟩
      · rintro (⟨after, ⟨⟩⟩ | ⟨_, _, ⟨⟩, after, refused⟩)
        exact ⟨after, refused⟩
  | error failure middle =>
      unfold Refuses
      rw [bind_of_eq_error outcome, outcome]
      constructor
      · rintro ⟨_, ⟨⟩⟩
        exact .inl ⟨_, rfl⟩
      · rintro (⟨_, ⟨⟩⟩ | ⟨_, _, ⟨⟩, _⟩)
        exact ⟨_, rfl⟩

theorem refuses_bind_of_ok {action : Decoding α} {next : α → Decoding β}
    {value : α} {middle : Source} (success : action source = .ok value middle) :
    Refuses (action >>= next) source refusal ↔
      Refuses (next value) middle refusal := by
  unfold Refuses
  rw [bind_of_eq_ok success]

theorem refuses_heap_bind {next : Heap → Decoding β} :
    Refuses (heap >>= next) source refusal ↔
      Refuses (next source.heap) source refusal :=
  Iff.rfl

theorem refuses_tell_bind {next : Option Nat → Decoding β} :
    Refuses (tell? >>= next) source refusal ↔
      Refuses (next source.reader.tell?) source refusal :=
  Iff.rfl

theorem not_refuses_of_ok {action : Decoding α} {value : α}
    {after : Source} (success : action source = .ok value after) :
    ¬ Refuses action source refusal := by
  rintro ⟨_, refused⟩
  cases success.symm.trans refused

theorem not_refuses_fail (cause : Cause) (offset : Option Nat) :
    ¬ Refuses (fail cause offset : Decoding α) source refusal := by
  rintro ⟨_, ⟨⟩⟩

theorem refuses_ask_iff {answer : Heap → Except Refusal α} :
    Refuses (ask answer) source refusal ↔
      answer source.heap = .error refusal := by
  unfold Refuses ask
  cases answer source.heap with
  | ok result => simp
  | error other => simp

theorem refuses_query_iff {answer : Heap → Except Failure α} :
    Refuses (query answer) source refusal ↔
      answer source.heap = .error (.refused refusal) := by
  unfold Refuses query
  cases answer source.heap with
  | ok result => simp
  | error other => simp

theorem refuses_query_bind_iff {answer : Heap → Except Failure α}
    {next : α → Decoding β} :
    Refuses (query answer >>= next) source refusal ↔
      answer source.heap = .error (.refused refusal) ∨
        ∃ result, answer source.heap = .ok result ∧
          Refuses (next result) source refusal := by
  cases answered : answer source.heap with
  | ok result =>
      have success : query answer source = .ok result source := by
        unfold query
        rw [answered]
      rw [refuses_bind_of_ok success]
      simp
  | error failure =>
      have failed : query answer source = .error failure source := by
        unfold query
        rw [answered]
      rw [refuses_bind_iff, refuses_query_iff, answered, failed]
      simp

theorem refuses_ask_bind_iff {answer : Heap → Except Refusal α}
    {next : α → Decoding β} :
    Refuses (ask answer >>= next) source refusal ↔
      answer source.heap = .error refusal ∨
        ∃ result, answer source.heap = .ok result ∧
          Refuses (next result) source refusal := by
  rw [ask_eq_query, refuses_query_bind_iff]
  cases answer source.heap with
  | ok result => simp [Except.mapError]
  | error other => simp [Except.mapError]

theorem refuses_build_iff {change : Heap → Except Failure (α × Heap)} :
    Refuses (build change) source refusal ↔
      change source.heap = .error (.refused refusal) := by
  unfold Refuses build
  cases change source.heap with
  | ok made => simp
  | error other => simp

theorem build_eq_error_iff {change : Heap → Except Failure (α × Heap)}
    {failure : Failure} {after : Source} :
    build change source = .error failure after ↔
      change source.heap = .error failure ∧ after = source := by
  unfold build
  cases change source.heap with
  | ok made => simp
  | error other => simp [eq_comm]

theorem liftM_eq_error_iff {outcome : Except Refusal α}
    {failure : Failure} :
    (liftM outcome : Except Failure α) = .error failure ↔
      ∃ refusal, outcome = .error refusal ∧ failure = .refused refusal := by
  cases outcome with
  | ok value =>
      constructor
      · rintro ⟨⟩
      · rintro ⟨_, ⟨⟩, _⟩
  | error other =>
      constructor
      · rintro ⟨⟩
        exact ⟨other, rfl, rfl⟩
      · rintro ⟨_, ⟨⟩, rfl⟩
        rfl

theorem make_eq_ok_iff {change : Heap → Except Refusal (α × Heap)}
    {result : α} {after : Source} :
    make change source = .ok result after ↔
      ∃ heap, change source.heap = .ok (result, heap) ∧
        after = { source with heap } := by
  unfold make
  rw [build_eq_ok_iff]
  exact exists_congr fun heap => and_congr_left fun _ => mapError_eq_ok_iff

theorem make_eq_error_iff {change : Heap → Except Refusal (α × Heap)}
    {failure : Failure} {after : Source} :
    make change source = .error failure after ↔
      ∃ refusal, change source.heap = .error refusal ∧
        failure = .refused refusal ∧ after = source := by
  unfold make
  rw [build_eq_error_iff, liftM_eq_error_iff]
  constructor
  · rintro ⟨⟨refusal, refused, same⟩, rfl⟩
    exact ⟨refusal, refused, same, rfl⟩
  · rintro ⟨refusal, refused, same, rfl⟩
    exact ⟨⟨refusal, refused, same⟩, rfl⟩

theorem refuses_make_iff {change : Heap → Except Refusal (α × Heap)} :
    Refuses (make change) source refusal ↔
      change source.heap = .error refusal := by
  unfold Refuses
  simp only [make_eq_error_iff]
  constructor
  · rintro ⟨_, _, refused, ⟨⟩, _⟩
    exact refused
  · intro refused
    exact ⟨source, refusal, refused, rfl, rfl⟩

theorem refuses_mapFailure_iff {change : Failure → Failure}
    {action : Decoding α} :
    Refuses (mapFailure change action) source refusal ↔
      ∃ failure after, action source = .error failure after ∧
        change failure = .refused refusal := by
  unfold Refuses mapFailure
  cases action source with
  | ok result after => simp
  | error failure after => simp

end Decoding

end PickleGraph
