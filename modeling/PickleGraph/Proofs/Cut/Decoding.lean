import PickleGraph.Proofs.Cut.Reader
import PickleGraph.Proofs.Machine.Advance

/-!
# Decoding a part of a file

Arguments and payloads are decoded from a part of a file as from the whole file,
until the part ends. An argument that is cut off is a truncated stream, and a
payload that is cut off is corrupt.
-/

namespace PickleGraph

open Actions

/-! ## Sources -/

/-- Sources on a part of a file and on the whole file, with one heap. -/
structure Source.Prolongs (more : Bytes) (length depth : Nat)
    (part whole : Source) : Prop where
  reader : Reader.Prolongs more length depth part.reader whole.reader
  heap : part.heap = whole.heap

/-- The source has got into the bytes that follow the part. -/
def Source.IsPast (more : Bytes) (source : Source) : Prop :=
  source.reader.IsPast more

/-- A failure that blames the end of the stream, or the payload that ends
there. -/
def Failure.IsBroken (failure : Failure) : Prop :=
  failure.IsOf .truncatedStream ∨ failure.IsOf .corruptPayload

namespace Decoding

/-- The action does on a part of a file what it does on the whole file, until
the part ends. -/
abbrev Tracks {α : Type} (more : Bytes) (length depth : Nat)
    (isCut : Failure → Prop) (action : Decoding α) : Prop :=
  Shadows (Source.Prolongs more length depth) isCut
    (Source.IsPast more) action

variable {more : Bytes} {length depth : Nat} {isCut : Failure → Prop}
variable {α β : Type}

theorem keeps_of_readOn {action : Decoding α}
    (moves : Moves Source.ReadOn action) :
    Moves (Keeps (Source.IsPast more)) action :=
  moves.mono fun _ _ readOn isPast => isPast.of_readOn readOn

namespace Tracks

theorem pure (result : α) :
    Tracks more length depth isCut (Pure.pure result) :=
  Shadows.pure result

theorem throw (failure : Failure) :
    Tracks more length depth isCut
      (MonadExcept.throw failure : Decoding α) :=
  Shadows.throw failure

theorem bind {action : Decoding α} {next : α → Decoding β}
    (first : Tracks more length depth isCut action)
    (second : ∀ value, Tracks more length depth isCut (next value)) :
    Tracks more length depth isCut (action >>= next) :=
  Shadows.bind first second

/-! ## Elementary actions -/

theorem reading {action : Reading α}
    (alike : ∀ part whole, Reader.Prolongs more length depth part whole →
      Reader.Alike more (Reader.Prolongs more length depth) (action part)
        (action whole))
    (readOn : Moves Source.ReadOn (Decoding.reading action)) :
    Tracks more length depth (Failure.IsOf .truncatedStream)
      (Decoding.reading action) := by
  refine ⟨fun part whole start => ?_, keeps_of_readOn readOn⟩
  have alike := alike part.reader whole.reader start.reader
  unfold Decoding.reading
  generalize action part.reader = partEnd at alike
  generalize action whole.reader = wholeEnd at alike
  cases alike with
  | ok result still => exact .ok result ⟨still, start.heap⟩
  | error failure still => exact .error failure ⟨still, start.heap⟩
  | cut after isCut isPast =>
      cases wholeEnd with
      | ok result further => exact .cut _ isCut isPast
      | error failure further => exact .cut _ isCut isPast

theorem read (count : Nat) :
    Tracks more length depth (Failure.IsOf .truncatedStream)
      (Decoding.read count) :=
  .reading (fun _ _ prolongs => Reader.alike_read prolongs count)
    (moves_reading Source.admits_readOn fun reader => reader.read_spent count)

theorem readLine :
    Tracks more length depth (Failure.IsOf .truncatedStream)
      Decoding.readLine :=
  .reading (fun _ _ prolongs => Reader.alike_readLine prolongs)
    (moves_reading Source.admits_readOn Reader.readLine_spent)

theorem openFrame (size : Nat) :
    Tracks more length depth (Failure.IsOf .truncatedStream)
      (Decoding.reading (Reader.openFrame size)) :=
  .reading (fun _ _ prolongs => Reader.alike_openFrame prolongs size)
    (Execution.readOn_openFrame size)

theorem tell : Tracks more length depth isCut tell? := by
  refine ⟨fun part whole start => ?_, fun _ isPast => isPast⟩
  have same : tell? part = .ok whole.reader.tell? part :=
    congrArg (EStateM.Result.ok · part) start.reader.tell?
  rw [same]
  exact .ok _ start

theorem build (change : Heap → Except Failure (α × Heap)) :
    Tracks more length depth isCut (Decoding.build change) := by
  refine ⟨fun part whole start => ?_, fun source isPast => ?_⟩
  · unfold Decoding.build
    rw [start.heap]
    cases change whole.heap with
    | ok made => exact .ok _ ⟨start.reader, rfl⟩
    | error failure => exact .error failure start
  · unfold Decoding.build
    cases change source.heap with
    | ok made => exact isPast
    | error failure => exact isPast

theorem make (change : Heap → Except Refusal (α × Heap)) :
    Tracks more length depth isCut (Decoding.make change) :=
  .build _

theorem heap : Tracks more length depth isCut Decoding.heap := by
  rw [heap_eq_build]
  exact .build _

theorem query (answer : Heap → Except Failure α) :
    Tracks more length depth isCut (Decoding.query answer) := by
  rw [query_eq_build]
  exact .build _

theorem ask (answer : Heap → Except Refusal α) :
    Tracks more length depth isCut (Decoding.ask answer) := by
  rw [ask_eq_query]
  exact .query _

theorem alloc (object : Object) :
    Tracks more length depth isCut (Decoding.alloc object) := by
  rw [alloc_eq_build]
  exact .build _

/-- Another reader than the one of the part is read in both cases. -/
theorem onReader (reader : Reader) (action : Decoding α) :
    Tracks more length depth isCut (Decoding.onReader reader action) := by
  refine ⟨fun part whole start => ?_, fun source isPast => ?_⟩
  · have same : { part with reader } = { whole with reader } := by
      rw [start.heap]
    unfold Decoding.onReader
    rw [same]
    cases action { whole with reader } with
    | ok result after => exact .ok result ⟨start.reader, rfl⟩
    | error failure after => exact .error failure ⟨start.reader, rfl⟩
  · unfold Decoding.onReader
    cases action { source with reader } with
    | ok result after => exact isPast
    | error failure after => exact isPast

theorem mapFailure {isOtherCut : Failure → Prop} {change : Failure → Failure}
    {action : Decoding α} (tracks : Tracks more length depth isCut action)
    (changes : ∀ failure, isCut failure → isOtherCut (change failure)) :
    Tracks more length depth isOtherCut
      (Decoding.mapFailure change action) := by
  refine ⟨fun part whole start => ?_, fun source isPast => ?_⟩
  · have alike := tracks.alike part whole start
    unfold Decoding.mapFailure
    generalize action part = partEnd at alike
    generalize action whole = wholeEnd at alike
    cases alike with
    | ok result still => exact .ok result still
    | error failure still => exact .error _ still
    | cut after isCut isPast =>
        refine .cut after (changes _ isCut) ?_
        cases wholeEnd with
        | ok result further => exact isPast
        | error failure further => exact isPast
  · have kept := tracks.keeps source isPast
    unfold Decoding.mapFailure
    split <;> next outcome =>
      rw [outcome] at kept
      exact kept

end Tracks

end Decoding

/-! ## Arguments -/

/-- A direct action is cut off only where it reads. -/
theorem Decoding.Direct.tracks {more : Bytes} {length depth : Nat}
    {α : Type} {action : Decoding α} (direct : Direct action) :
    Tracks more length depth (Failure.IsOf .truncatedStream) action := by
  induction direct with
  | pure result => exact .pure result
  | throw failure => exact .throw failure
  | bind _ _ action next => exact .bind action next
  | read count => exact .read count
  | readLine => exact .readLine
  | answer outcome => exact .query _

/-! ## Payloads -/

namespace Payload

open Decoding

variable {more : Bytes} {length depth : Nat}

/-- An action on a payload, which is corrupt if it is cut off. -/
abbrev TracksPayload {α : Type} (more : Bytes) (length depth : Nat)
    (action : Decoding α) : Prop :=
  Tracks more length depth (Failure.IsOf .corruptPayload) action

theorem isOf_unreadable {failure : Failure}
    (isCut : failure.IsOf .truncatedStream) :
    (readExact.unreadable failure).IsOf .corruptPayload := by
  cases failure with
  | defect cause place =>
      have truncated : cause.failureClass = .truncatedStream := isCut
      rw [readExact.unreadable, if_pos truncated]
      rfl
  | refused refusal => cases isCut
  | source fault => cases isCut

theorem isOf_corrupt {failure : Failure} (offset : Option Nat)
    (isBroken : failure.IsBroken) :
    (readNested.corrupt offset failure).IsOf .corruptPayload := by
  cases failure with
  | defect cause place => rfl
  | refused refusal => exact isBroken.elim False.elim False.elim
  | source fault => exact isBroken.elim False.elim False.elim

theorem tracks_readExact (count : Nat) :
    TracksPayload more length depth (readExact count) := by
  refine .bind .tell fun offset => ?_
  refine .bind (.mapFailure (.read count) fun _ => isOf_unreadable)
    fun data => ?_
  split
  · exact .throw _
  · exact .pure _

/-! ### Headers -/

theorem tracks_literalValue (names : CharacterNames) (offset : Option Nat)
    (text : Text) :
    TracksPayload more length depth (literalValue names offset text) := by
  unfold literalValue
  cases Literal.parse? names text with
  | none => exact .throw _
  | some literal =>
      have evaluates : Tracks more length depth (fun _ => False)
          (make literal.evaluate) :=
        .make _
      exact evaluates.mapFailure fun _ => False.elim

theorem tracks_composing :
    Composing (TracksPayload more length depth) where
  pure := .pure
  bind := .bind
  fail _ := .throw _
  tell := .tell
  heap := .heap
  ask := .ask
  make := .make
  alloc := .alloc
  payloadDtype _ := .query _
  readExact := tracks_readExact
  literalValue := tracks_literalValue

/-! ### Pickles inside -/

variable {nested : Decoding Value}

/-- Whatever breaks off a pickle inside, the payload is corrupt. -/
theorem tracks_readNested
    (nestedTracks : Tracks more length depth Failure.IsBroken nested) :
    TracksPayload more length depth (readNested nested) := by
  refine .bind .tell fun offset => ?_
  refine .bind (.mapFailure (.bind nestedTracks fun value => ?_)
    fun _ => isOf_corrupt offset) fun value => ?_
  · refine .bind .heap fun heap => ?_
    split
    · split
      · exact .bind (.build _) fun array => .alloc _
      · exact .pure _
    · exact .pure _
  · refine .bind .heap fun heap => ?_
    split
    · exact .pure _
    · exact .bind .heap fun heap => .bind .tell fun offset => .throw _

/-! ### Placeholders -/

theorem tracks_readInline (names : CharacterNames) (record : Record)
    (nestedTracks : Tracks more length depth Failure.IsBroken nested) :
    TracksPayload more length depth (readInline names record nested) :=
  tracks_composing.readInline record id .bind (tracks_readNested nestedTracks)

theorem tracks_readSibling (names : CharacterNames) (record : Record)
    (siblings? : Option Siblings) :
    TracksPayload more length depth (readSibling names record siblings?) := by
  unfold readSibling
  split
  · exact .throw _
  · split
    · exact .throw _
    · split
      · exact .bind (.onReader _ _) fun array => .alloc _
      · exact .throw _

theorem tracks_materialize (options : Options) (layout : ArrayLayout)
    (record : Record)
    (nestedTracks : Tracks more length depth Failure.IsBroken nested) :
    TracksPayload more length depth
      (Execution.materialize options nested layout record) := by
  cases layout with
  | inline => exact tracks_readInline options.names record nestedTracks
  | sibling => exact tracks_readSibling options.names record options.siblings?

end Payload

end PickleGraph
