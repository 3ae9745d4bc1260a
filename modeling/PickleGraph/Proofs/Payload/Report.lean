import PickleGraph.Proofs.Payload.Escape

/-!
# Defects of payloads

Every defect that is met while the array of a placeholder is read from memory is
a defect of the array payload. What goes wrong in a pickle inside is blamed on
the payload too.
-/

namespace PickleGraph

open Actions

namespace Decoding.Reports

variable {α β : Type}

theorem pure (result : α) : Reports (Pure.pure result) :=
  Meets.pure fun _ inMemory => inMemory

theorem fail {cause : Cause} {offset : Option Nat}
    (isCorrupt : cause.failureClass = .corruptPayload) :
    Reports (Decoding.fail cause offset : Decoding α) :=
  Meets.throw fun _ _ => isCorrupt

theorem bind {action : Decoding α} {next : α → Decoding β}
    (first : Reports action) (second : ∀ value, Reports (next value)) :
    Reports (action >>= next) :=
  Meets.bind first second

theorem tell : Reports tell? :=
  fun _ inMemory => inMemory

theorem heap : Reports Decoding.heap :=
  fun _ inMemory => inMemory

theorem build {change : Heap → Except Failure (α × Heap)}
    (rejects : ∀ heap, Rejects Failure.IsOfPayload (change heap)) :
    Reports (Decoding.build change) := by
  intro source inMemory
  have rejected := rejects source.heap
  unfold Decoding.build
  cases outcome : change source.heap with
  | ok made => exact inMemory
  | error failure => exact rejected failure outcome

theorem make (change : Heap → Except Refusal (α × Heap)) :
    Reports (Decoding.make change) :=
  build fun _ => .mapError fun _ _ => trivial

theorem query {answer : Heap → Except Failure α}
    (rejects : ∀ heap, Rejects Failure.IsOfPayload (answer heap)) :
    Reports (Decoding.query answer) :=
  abides_query fun source _ => rejects source.heap

theorem ask (answer : Heap → Except Refusal α) :
    Reports (Decoding.ask answer) := by
  rw [ask_eq_query]
  exact query fun _ => .mapError fun _ _ => trivial

theorem alloc (object : Object) : Reports (Decoding.alloc object) :=
  fun _ inMemory => inMemory

theorem mapFailure {change : Failure → Failure} {action : Decoding α}
    (reports : Reports action)
    (changed : ∀ failure : Failure, failure.IsOfPayload →
      (change failure).IsOfPayload) :
    Reports (Decoding.mapFailure change action) := by
  intro source inMemory
  have met := reports source inMemory
  unfold Decoding.mapFailure
  cases outcome : action source with
  | ok result after =>
      rw [outcome] at met
      exact met
  | error failure after =>
      rw [outcome] at met
      exact changed failure met

end Decoding.Reports

theorem Heap.reports_payloadDtype (heap : Heap) (value : Value) :
    Rejects Failure.IsOfPayload (heap.payloadDtype value) := by
  have quoted : ∀ cause : Text → Cause,
      (∀ text, (cause text).failureClass = .corruptPayload) →
      Rejects Failure.IsOfPayload (do
        Failure.raise (cause (← heap.quote value)) : Except Failure Dtype) := by
    intro cause isCorrupt
    have lifted : Rejects Failure.IsOfPayload
        (liftM (heap.quote value) : Except Failure Text) :=
      .mapError fun _ _ => trivial
    exact .bind lifted fun text _ => .error (isCorrupt text)
  unfold payloadDtype
  split
  · exact .ok _
  · exact quoted _ fun _ => rfl
  · split
    · exact quoted _ fun _ => rfl
    · exact quoted _ fun _ => rfl
    · exact quoted _ fun _ => rfl
    · exact quoted _ fun _ => rfl
    · exact quoted _ fun _ => rfl
    · exact .error trivial
  · next fault failed =>
      have faultless := isFaultless_toDtype value _ failed
      cases faultless

namespace Payload

open Decoding

theorem reports_readExact (count : Nat) : Reports (readExact count) := by
  refine (meets_readExact count).mono (fun _ => id) (fun _ _ => And.left) ?_
  rintro failure _ (⟨isCorrupt, _⟩ | ⟨rfl, _⟩)
  · cases failure with
    | defect cause place => exact isCorrupt
    | refused refusal => cases isCorrupt
    | source fault => cases isCorrupt
  · trivial

theorem reports_literalValue (names : CharacterNames) (offset : Option Nat)
    (text : Text) :
    Reports (literalValue names offset text) := by
  unfold literalValue
  split
  · exact .fail rfl
  · refine .mapFailure (.make _) fun failure isOfPayload => ?_
    split
    · rfl
    · rfl
    · rfl
    · exact isOfPayload

theorem reports_composing : Composing Reports where
  pure := .pure
  bind := .bind
  fail := .fail
  tell := .tell
  heap := .heap
  ask := .ask
  make := .make
  alloc := .alloc
  payloadDtype value := .query fun heap => heap.reports_payloadDtype value
  readExact := reports_readExact
  literalValue := reports_literalValue

/-! ## Pickles inside -/

/-- What a pickle inside gives: an array is rebuilt from its record. -/
def nestedValue (nested : Decoding Value) : Decoding Value := do
  let value ← nested
  match (← heap).record? value with
  | some (_, record) =>
      if record.kind = .ndarray then
        allocArray (← build (·.arrayOfRecord record))
      else
        return value
  | none => return value

/-- Whether what a pickle inside gives is an array. -/
def acceptArray (value : Value) : Decoding Value := do
  if ((← heap).array? value).isSome then
    return value
  else
    fail (.nestedResult ((← heap).typeName value)) (← tell?)

theorem readNested_eq (nested : Decoding Value) (source : Source) :
    readNested nested source =
      (mapFailure (readNested.corrupt source.reader.tell?)
        (nestedValue nested) >>= acceptArray) source :=
  rfl

variable {nested : Decoding Value}

end Payload

end PickleGraph
