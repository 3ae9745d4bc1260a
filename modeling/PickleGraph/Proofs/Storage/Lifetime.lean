import PickleGraph.Proofs.Actions
import PickleGraph.Storage.Session

/-!
# The lifetime of streams

Whatever is asked of a storage, in any order and with any outcome, no more than
one of the streams that it has opened is open, and it is the one that is lent.
After a decode none is.
-/

namespace PickleGraph.Session

open Actions

variable {storage : Storage} {session : Session} {files : Files}

/-! ## Histories -/

/-- What can be asked of a storage and of the streams that it has opened. -/
inductive Call
  | openStream
  | close
  | decode (options : Options)
  | read (number : Nat) (count : Int)
  | readLine (number : Nat)

/-- Does what a call asks for. Only the session is kept, and whether the call
fails. -/
def Call.perform : Call → Using Unit
  | openStream => discard Session.openStream
  | close => Session.close
  | decode options => discard (Session.decode options)
  | read number count => discard (readStream number count)
  | readLine number => discard (readStreamLine number)

def ofStorage (storage : Storage) : Session where
  storage := storage

/-- The session after some calls. The files can change between them, and a call
that fails is followed by the next one. -/
def after : Session → List (Files × Call) → Session
  | session, [] => session
  | session, (files, call) :: history =>
      (finalState (call.perform files session)).after history

theorem finalState_discard {α : Type} (action : Using α) (files : Files)
    (session : Session) :
    finalState ((discard action : Using Unit) files session) =
      finalState (action files session) := by
  show finalState (EStateM.map _ (action files) session) = _
  unfold EStateM.map
  cases action files session <;> rfl

/-! ## Calls by their effects -/

/-- The session with one more stream, which is lent. -/
def lending (session : Session) (content : Content) : Session :=
  { session with
    streams := session.streams.push
      { reader := content.reader
        isLenient := session.storage.medium.isLenient }
    lent? := some session.streams.size }

/-- The session with the stream that is lent, if any, closed. -/
def closed (session : Session) : Session :=
  finalState (close (fun _ => .error .missing) session)

theorem openStream_of_some {number : Nat}
    (isLent : session.lent? = some number) :
    openStream files session =
      .error (.ofCause (.alreadyOpen session.storage.describe)) session := by
  obtain ⟨storage, streams, lent⟩ := session
  cases isLent
  rfl

theorem openStream_of_none (files : Files)
    (noneLent : session.lent? = none) :
    openStream files session =
      match session.storage.content files with
      | .error failure => .error failure session
      | .ok content =>
          .ok session.streams.size (session.lending content) := by
  obtain ⟨storage, streams, lent⟩ := session
  cases noneLent
  show (match storage.content files with
    | .error failure => (throw failure : Using Nat)
    | .ok content => _) files _ = _
  dsimp only
  cases storage.content files <;> rfl

theorem close_eq (files : Files) (session : Session) :
    close files session = .ok () session.closed :=
  rfl

theorem closed_of_none (noneLent : session.lent? = none) :
    session.closed = session := by
  obtain ⟨storage, streams, lent⟩ := session
  cases noneLent
  rfl

theorem closed_of_some {number : Nat}
    (isLent : session.lent? = some number) :
    session.closed =
      { session with
        streams := session.streams.modify number fun stream =>
          { stream with isOpen := false }
        lent? := none } := by
  obtain ⟨storage, streams, lent⟩ := session
  cases isLent
  rfl

/-- A decode opens a stream, leaves the session alone and closes what is lent,
whether it has opened a stream or not. -/
theorem finalState_decode (options : Options) :
    finalState (decode options files session) =
      (finalState (openStream files session)).closed := by
  unfold decode
  cases opening : openStream files session with
  | ok number opened =>
      have looked : (get : Using Session) files opened = .ok opened opened :=
        rfl
      have asked : (read : Using Files) files opened = .ok files opened := rfl
      simp only [tryFinally, bind, ReaderT.bind, EStateM.bind, opening,
        Functor.map, EStateM.map, MonadFinally.tryFinally', looked, asked]
      cases opened.storage.decode files options <;> rfl
  | error failure kept =>
      simp only [tryFinally, bind, ReaderT.bind, EStateM.bind, opening,
        Functor.map, EStateM.map, MonadFinally.tryFinally', close_eq]
      rfl

/-! ## The invariant -/

/-- The stream with this number has been opened and has not been closed. -/
def HasOpen (session : Session) (number : Nat) : Prop :=
  session.streams[number]?.map (·.isOpen) = some true

/-- A session of this storage whose only open stream is the one that is lent. -/
structure IsSound (storage : Storage) (session : Session) : Prop where
  isStorage : session.storage = storage
  onlyLent : ∀ number,
    session.HasOpen number ↔ session.lent? = some number

theorem isSound_ofStorage (storage : Storage) :
    IsSound storage (ofStorage storage) where
  isStorage := rfl
  onlyLent number := by
    constructor
    · intro isOpen
      cases isOpen
    · intro isLent
      cases isLent

theorem IsSound.lending (sound : IsSound storage session)
    (noneLent : session.lent? = none) (content : Content) :
    IsSound storage (session.lending content) where
  isStorage := sound.isStorage
  onlyLent number := by
    have noOther : ¬ session.HasOpen number := by
      rw [sound.onlyLent, noneLent]
      exact fun impossible => nomatch impossible
    unfold HasOpen Session.lending
    rw [Array.getElem?_push]
    by_cases isLast : number = session.streams.size
    · simp [isLast]
    · have notLent : ¬ some session.streams.size = some number :=
        fun same => isLast (Option.some.inj same).symm
      rw [if_neg isLast]
      exact iff_of_false noOther notLent

/-- Closing leaves no stream open and lends none. -/
theorem IsSound.closed (sound : IsSound storage session) :
    IsSound storage session.closed ∧ session.closed.lent? = none := by
  cases isLent : session.lent? with
  | none =>
      rw [closed_of_none isLent]
      exact ⟨sound, isLent⟩
  | some lent =>
      rw [closed_of_some isLent]
      refine ⟨⟨sound.isStorage, fun number => iff_of_false ?_ nofun⟩, rfl⟩
      unfold HasOpen
      rw [Array.getElem?_modify]
      split
      · simp
      · next another =>
          intro isOpen
          have same := (sound.onlyLent number).mp isOpen
          rw [isLent] at same
          exact another (Option.some.inj same)

theorem IsSound.openStream (sound : IsSound storage session)
    (files : Files) :
    IsSound storage (finalState (Session.openStream files session)) := by
  cases isLent : session.lent? with
  | some number =>
      rw [openStream_of_some isLent]
      exact sound
  | none =>
      rw [openStream_of_none files isLent]
      cases session.storage.content files with
      | error failure => exact sound
      | ok content => exact sound.lending isLent content

/-- A stream that is read stays open or closed. -/
theorem IsSound.withReader (sound : IsSound storage session)
    {number : Nat} {stream : Stream}
    (found : session.streams[number]? = some stream) (reader : Reader) :
    IsSound storage
      { session with
        streams := session.streams.set! number { stream with reader } } where
  isStorage := sound.isStorage
  onlyLent other := by
    rw [← sound.onlyLent other]
    unfold HasOpen
    rw [Array.set!_eq_setIfInBounds, Array.getElem?_setIfInBounds]
    split
    · next same =>
        subst same
        split <;> simp_all
    · exact Iff.rfl

theorem IsSound.onStream {α : Type} (sound : IsSound storage session)
    (number : Nat) (action : Stream → Reading α) :
    IsSound storage
      (finalState (Session.onStream number action files session)) := by
  have looked : (get : Using Session) files session = .ok session session :=
    rfl
  unfold Session.onStream
  simp only [bind, ReaderT.bind, EStateM.bind, looked]
  cases found : session.streams[number]? with
  | none => exact sound
  | some stream =>
      cases isOpen : stream.isOpen with
      | false =>
          simp only [isOpen]
          exact sound
      | true =>
          have kept := sound.withReader found
          simp only [isOpen] at kept ⊢
          cases action stream stream.reader with
          | ok result reader => exact kept reader
          | error failure reader => exact kept reader

/-- Every call leaves the stream that is lent as the only open one. -/
theorem IsSound.perform (sound : IsSound storage session) (call : Call) :
    IsSound storage (finalState (call.perform files session)) := by
  cases call with
  | openStream =>
      rw [Call.perform, finalState_discard]
      exact sound.openStream files
  | close => exact sound.closed.1
  | decode options =>
      rw [Call.perform, finalState_discard, finalState_decode]
      exact (sound.openStream files).closed.1
  | read number count =>
      rw [Call.perform, finalState_discard]
      exact sound.onStream number _
  | readLine number =>
      rw [Call.perform, finalState_discard]
      exact sound.onStream number _

theorem IsSound.after (sound : IsSound storage session)
    (history : List (Files × Call)) :
    IsSound storage (session.after history) := by
  induction history generalizing session with
  | nil => exact sound
  | cons first rest inductionHypothesis =>
      exact inductionHypothesis (sound.perform first.2)

theorem IsSound.isOpen_eq_false (sound : IsSound storage session)
    (noneLent : session.lent? = none) {stream : Stream}
    (opened : stream ∈ session.streams) : stream.isOpen = false := by
  obtain ⟨number, inRange, found⟩ := Array.mem_iff_getElem.mp opened
  have isOpen : ¬ session.HasOpen number := by
    rw [sound.onlyLent, noneLent]
    exact nofun
  unfold HasOpen at isOpen
  rw [Array.getElem?_eq_getElem inRange, found] at isOpen
  simpa using isOpen

/-! ## The lifetime of streams -/

/-- How a session treats the streams of its storage, under all files. -/
structure KeepsLifetimes (storage : Storage) (session : Session) : Prop where
  /-- The open stream, of which there is at most one, is the one that is
  lent. -/
  onlyLent : ∀ number,
    session.HasOpen number ↔ session.lent? = some number
  /-- While a stream is lent no other one is opened, and it stays lent. -/
  refuses : ∀ files number, session.lent? = some number →
    openStream files session =
      .error (.ofCause (.alreadyOpen storage.describe)) session
  /-- While none is lent, a stream is opened if there is a content. -/
  opens : ∀ files, session.lent? = none →
    openStream files session =
      match storage.content files with
      | .ok content => .ok session.streams.size (session.lending content)
      | .error failure => .error failure session
  /-- A decode goes through the session in which it has tried to open a stream.
  However it ends, no stream is open and none is lent. -/
  decodes : ∀ files options,
    (finalState (decode options files session) =
      finalState (close files (finalState (openStream files session)))) ∧
    (finalState (decode options files session)).lent? = none ∧
    ∀ stream ∈ (finalState (decode options files session)).streams,
      stream.isOpen = false
  /-- A closed storage is opened again where it has a content. -/
  reopens : ∀ files later content, storage.content later = .ok content →
    ∃ number reopened,
      openStream later (finalState (close files session)) =
          .ok number reopened ∧
        reopened.lent? = some number ∧
        reopened.streams[number]?.map (·.reader) = some content.reader

/-- Every history of calls, failed ones included, keeps the lifetimes of the
streams of its storage. -/
theorem keepsLifetimes_after (storage : Storage)
    (history : List (Files × Call)) :
    KeepsLifetimes storage ((ofStorage storage).after history) := by
  have sound := (isSound_ofStorage storage).after history
  generalize (ofStorage storage).after history = session at sound
  refine ⟨sound.onlyLent, ?_, ?_, ?_, ?_⟩
  · intro files number isLent
    rw [openStream_of_some isLent, sound.isStorage]
  · intro files noneLent
    rw [openStream_of_none files noneLent, sound.isStorage]
    cases storage.content files <;> rfl
  · intro files options
    have closed : finalState (decode options files session) =
        (finalState (openStream files session)).closed :=
      finalState_decode options
    obtain ⟨soundAfter, noneLent⟩ := (sound.openStream files).closed
    have allClosed : ∀ stream ∈
        (finalState (openStream files session)).closed.streams,
        stream.isOpen = false :=
      fun stream opened => soundAfter.isOpen_eq_false noneLent opened
    rw [closed]
    exact ⟨rfl, noneLent, allClosed⟩
  · intro files later content hasContent
    obtain ⟨soundAfter, noneLent⟩ := sound.closed
    have opened := openStream_of_none later noneLent
    rw [soundAfter.isStorage, hasContent] at opened
    refine ⟨_, _, opened, rfl, ?_⟩
    unfold Session.lending
    simp

/-- A second stream is refused, and so is a decode, which closes the first. -/
example :
    let noFiles : Files := fun _ => .error .missing
    let session := (ofStorage ⟨.memory [0x4E, 0x2E], none⟩).after
      [(noFiles, .openStream), (noFiles, .openStream),
        (noFiles, .decode .standard)]
    session.streams.size = 1 ∧ session.lent? = none := by
  decide

end PickleGraph.Session
