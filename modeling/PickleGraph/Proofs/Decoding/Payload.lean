import PickleGraph.Machine.Execution
import PickleGraph.Proofs.Decoding.Parallel

/-!
# Payloads are read in parallel

Reading the payload of an array is put together from elementary actions and
from the decoder of the pickles inside. Whether a payload is accepted, and which
array it gives, does not depend on the place where it stands. What else is true
of the elementary actions, and of failures that blame the payload, is true of the
reading of payloads.
-/

namespace PickleGraph.Payload

open Decoding

variable {nested other : Decoding Value} {names : CharacterNames}

/-! ## Headers -/

theorem parallel_readExact (count : Nat) :
    Parallel nested other (readExact count) (readExact count) := by
  refine .tell fun place otherPlace => ?_
  refine .bind (.mapFailure _ _ (.read count)) fun data => ?_
  split
  · exact .throw _ _
  · exact .pure data

theorem parallel_literalValue (place otherPlace : Option Nat) (text : Text) :
    Parallel nested other (literalValue names place text)
      (literalValue names otherPlace text) := by
  unfold literalValue
  cases Literal.parse? names text with
  | none => exact .throw _ _
  | some literal =>
      exact .mapFailure _ _ (.make (Literal.growsTo_evaluate literal))

theorem parallel_checkShape (value : Value) (place otherPlace : Option Nat) :
    Parallel nested other (checkShape value place)
      (checkShape value otherPlace) := by
  refine .bind .heap fun heap => ?_
  cases shapeOf? heap value with
  | none => exact .bind (.ask _) fun _ => .throw _ _
  | some shape => exact .pure shape

theorem parallel_withTupleFields (value : Value) :
    Parallel nested other (withTupleFields value)
      (withTupleFields value) := by
  refine .bind .heap fun heap => ?_
  split
  · split
    · refine .bind (.arrayMapM _ fun item => ?_) fun fields => ?_
      · exact .bind (.make fun heap => Heap.growsTo_iterate heap item)
          fun items => .pure _
      · exact .alloc trivial
    · exact .pure _
  · exact .pure _

theorem parallel_headerOf
    (entries : List (Value × Value)) (place otherPlace : Option Nat)
    (missing otherMissing : Cause) :
    Parallel nested other (headerOf entries place missing)
      (headerOf entries otherPlace otherMissing) := by
  unfold headerOf
  dsimp only
  cases Entries.findText? "descr" entries with
  | none => exact .throw _ _
  | some description =>
  cases Entries.findText? "fortran_order" entries with
  | none => exact .throw _ _
  | some order =>
  cases Entries.findText? "shape" entries with
  | none => exact .throw _ _
  | some shape =>
      refine .bind (parallel_checkShape shape place otherPlace) fun shape => ?_
      cases order with
      | bool firstFastest =>
          refine .bind (parallel_withTupleFields description) fun _ => ?_
          exact .bind (.query _) fun type => .pure _
      | _ => exact .bind (.ask _) fun _ => .throw _ _

theorem parallel_readHeader :
    Parallel nested other (readHeader names) (readHeader names) := by
  refine .tell fun place otherPlace => ?_
  refine .bind (parallel_readExact _) fun found => ?_
  split
  · exact .throw _ _
  · refine .bind (parallel_readExact 2) fun version => ?_
    dsimp only
    cases lengthWidth? (version.headD 0).toNat with
    | none => exact .throw _ _
    | some width =>
        refine .bind (parallel_readExact width) fun length => ?_
        refine .bind (parallel_readExact _) fun content => ?_
        cases headerText (headerCharset (version.headD 0).toNat) content with
        | error cause => exact .throw _ _
        | ok text =>
            refine .bind (parallel_literalValue place otherPlace text)
              fun value => ?_
            refine .bind .heap fun heap => ?_
            cases heap.entries? value with
            | none => exact .throw _ _
            | some entries => exact parallel_headerOf entries _ _ _ _

/-! ## Elements -/

theorem parallel_allocArray (array : NdArray) :
    Parallel nested other (allocArray array) (allocArray array) :=
  .alloc trivial

theorem parallel_readElements (header : Header) :
    Parallel nested other (readElements header) (readElements header) := by
  unfold readElements
  split
  · exact .tell fun _ _ => .throw _ _
  · exact .bind (parallel_readExact _) fun data => .ask _

theorem parallel_readHeaded :
    Parallel nested other (readHeaded names) (readHeaded names) :=
  .bind parallel_readHeader parallel_readElements

theorem parallel_skipPadding :
    Parallel nested other skipPadding skipPadding := by
  refine .bind (parallel_readExact 1) fun length => ?_
  split
  · split
    · exact .bind (parallel_readExact _) fun _ => .pure _
    · exact .pure _
  · exact .pure _

/-! ## Nested pickles -/

theorem parallel_readNested :
    Parallel nested other (readNested nested) (readNested other) := by
  refine .tell fun place otherPlace => ?_
  refine .bind (.mapFailure _ _ (.bind .nested fun value => ?_)) fun value => ?_
  · refine .bind .heap fun heap => ?_
    split
    · split
      · exact .bind (.build fun heap => Heap.growsTo_arrayOfRecord heap _)
          fun array => parallel_allocArray array
      · exact .pure _
    · exact .pure _
  · refine .bind .heap fun heap => ?_
    split
    · exact .pure _
    · exact .bind .heap fun heap => .tell fun _ _ => .throw _ _

/-! ## Placeholders -/

theorem parallel_orderFlag (value : Value) :
    Parallel nested other (orderFlag value) (orderFlag value) := by
  refine .bind (.ask _) fun isFirst => ?_
  split
  · exact .pure _
  · refine .bind (.ask _) fun isLast => ?_
    split
    · exact .pure _
    · exact .bind (.ask _) fun _ => .tell fun _ _ => .throw _ _

theorem parallel_readInline (record : Record) :
    Parallel nested other (readInline names record nested)
      (readInline names record other) := by
  unfold readInline
  cases record.field? "dtype" with
  | none => exact .bind parallel_readHeaded parallel_allocArray
  | some type =>
  cases record.field? "shape" with
  | none => exact .bind parallel_readHeaded parallel_allocArray
  | some shape =>
      refine .bind (.query _) fun type => ?_
      refine .tell fun place otherPlace => ?_
      refine .bind (parallel_checkShape shape place otherPlace) fun shape => ?_
      refine .bind (parallel_orderFlag _) fun firstFastest => ?_
      split
      · exact parallel_readNested
      · split
        · exact .bind (parallel_readElements _) parallel_allocArray
        · exact .bind parallel_skipPadding fun _ =>
            .bind (parallel_readElements _) parallel_allocArray

theorem parallel_readSibling
    (record : Record) (siblings? : Option Siblings) :
    Parallel nested other (readSibling names record siblings?)
      (readSibling names record siblings?) := by
  unfold readSibling
  cases (record.field "filename").text? with
  | none => exact .throw _ _
  | some fileName =>
  cases siblings? with
  | none => exact .throw _ _
  | some siblings =>
      dsimp only
      cases siblings fileName with
      | error failure => exact .throw _ _
      | ok reader =>
          exact .bind (.onReader reader parallel_readHeaded)
            parallel_allocArray

theorem parallel_materialize
    (options : Options) (layout : ArrayLayout) (record : Record) :
    Parallel nested other
      (Execution.materialize options nested layout record)
      (Execution.materialize options other layout record) := by
  cases layout with
  | inline => exact parallel_readInline record
  | sibling => exact parallel_readSibling record options.siblings?

/-! ## What the reading of payloads is composed of -/

/-- Composition keeps the property. Exact reads have it, literals and questions
about the heap, and failures that blame the payload. -/
structure Composing (Kept : {α : Type} → Decoding α → Prop) : Prop where
  pure : ∀ {α : Type} (result : α), Kept (Pure.pure result : Decoding α)
  bind : ∀ {α β : Type} {action : Decoding α} {next : α → Decoding β},
    Kept action → (∀ value, Kept (next value)) → Kept (action >>= next)
  fail : ∀ {α : Type} {cause : Cause} {offset : Option Nat},
    cause.failureClass = .corruptPayload →
      Kept (Decoding.fail cause offset : Decoding α)
  tell : Kept tell?
  heap : Kept Decoding.heap
  ask : ∀ {α : Type} (answer : Heap → Except Refusal α),
    Kept (Decoding.ask answer)
  make : ∀ {α : Type} (change : Heap → Except Refusal (α × Heap)),
    Kept (Decoding.make change)
  alloc : ∀ object, Kept (Decoding.alloc object)
  payloadDtype : ∀ value, Kept (query (·.payloadDtype value))
  readExact : ∀ count, Kept (Payload.readExact count)
  literalValue : ∀ names offset text,
    Kept (Payload.literalValue names offset text)

theorem headerText_isCorrupt {charset : Charset} {content : Bytes}
    {cause : Cause} (rejected : headerText charset content = .error cause) :
    cause.failureClass = .corruptPayload := by
  unfold headerText at rejected
  split at rejected
  · split at rejected
    · cases rejected
    · cases rejected
      rfl
  · cases rejected

namespace Composing

variable {Kept : {α : Type} → Decoding α → Prop} (composing : Composing Kept)

include composing

theorem mapM {α β : Type} {action : α → Decoding β} (items : List α)
    (kept : ∀ item, Kept (action item)) : Kept (items.mapM action) := by
  induction items with
  | nil => exact composing.pure []
  | cons item rest inductionHypothesis =>
      rw [List.mapM_cons]
      refine composing.bind (kept item) fun value => ?_
      exact composing.bind inductionHypothesis fun values =>
        composing.pure _

theorem checkShape (value : Value) (offset : Option Nat) :
    Kept (Payload.checkShape value offset) := by
  refine composing.bind composing.heap fun heap => ?_
  split
  · exact composing.pure _
  · exact composing.bind (composing.ask _) fun _ => composing.fail rfl

theorem withTupleFields (value : Value) :
    Kept (Payload.withTupleFields value) := by
  refine composing.bind composing.heap fun heap => ?_
  split
  · split
    · refine composing.bind ?_ fun fields => composing.alloc _
      rw [Array.mapM_eq_mapM_toList, map_eq_pure_bind]
      refine composing.bind (composing.mapM _ fun item => ?_) fun fields =>
        composing.pure _
      exact composing.bind (composing.make _) fun items => composing.pure _
    · exact composing.pure _
  · exact composing.pure _

theorem headerOf (entries : List (Value × Value)) (offset : Option Nat)
    {missing : Cause} (isCorrupt : missing.failureClass = .corruptPayload) :
    Kept (Payload.headerOf entries offset missing) := by
  unfold Payload.headerOf
  dsimp only
  split
  · refine composing.bind (composing.checkShape _ _) fun shape => ?_
    split
    · refine composing.bind (composing.withTupleFields _)
        fun description => ?_
      exact composing.bind (composing.payloadDtype description) fun type =>
        composing.pure _
    · exact composing.bind (composing.ask _) fun _ => composing.fail rfl
  · exact composing.fail isCorrupt

theorem readHeader : Kept (Payload.readHeader names) := by
  refine composing.bind composing.tell fun offset => ?_
  refine composing.bind (composing.readExact _) fun found => ?_
  split
  · exact composing.fail rfl
  refine composing.bind (composing.readExact 2) fun version => ?_
  dsimp only
  split
  · exact composing.fail rfl
  next width _ =>
  refine composing.bind (composing.readExact width) fun length => ?_
  refine composing.bind (composing.readExact _) fun content => ?_
  split
  · next cause rejected =>
      exact composing.fail (headerText_isCorrupt rejected)
  · refine composing.bind (composing.literalValue names offset _) fun value => ?_
    refine composing.bind composing.heap fun heap => ?_
    split
    · exact composing.headerOf _ _ rfl
    · exact composing.fail rfl

theorem readElements (header : Header) :
    Kept (Payload.readElements header) := by
  unfold Payload.readElements
  split
  · exact composing.bind composing.tell fun offset => composing.fail rfl
  · exact composing.bind (composing.readExact _) fun data =>
      composing.ask _

theorem readHeaded : Kept (Payload.readHeaded names) :=
  composing.bind composing.readHeader composing.readElements

theorem skipPadding : Kept Payload.skipPadding := by
  refine composing.bind (composing.readExact 1) fun length => ?_
  split
  · split
    · exact composing.bind (composing.readExact _) fun _ =>
        composing.pure _
    · exact composing.pure _
  · exact composing.pure _

theorem orderFlag (value : Value) : Kept (Payload.orderFlag value) := by
  refine composing.bind (composing.ask _) fun isFirst => ?_
  split
  · exact composing.pure _
  · refine composing.bind (composing.ask _) fun isLast => ?_
    split
    · exact composing.pure _
    · refine composing.bind (composing.ask _) fun _ => ?_
      exact composing.bind composing.tell fun offset => composing.fail rfl

/-- A pickle inside is read last, so that less may be true of it. -/
theorem readInline {Ends : Decoding Value → Prop} (record : Record)
    (kept : ∀ {action : Decoding Value}, Kept action → Ends action)
    (follow : ∀ {α : Type} {action : Decoding α}
      {next : α → Decoding Value}, Kept action →
        (∀ value, Ends (next value)) → Ends (action >>= next))
    (ends : Ends (readNested nested)) :
    Ends (Payload.readInline names record nested) := by
  have allocates : ∀ array, Kept (allocArray array) :=
    fun array => composing.alloc _
  unfold Payload.readInline
  split
  · refine follow (composing.payloadDtype _) fun type => ?_
    refine follow composing.tell fun offset => ?_
    refine follow (composing.checkShape _ _) fun shape => ?_
    refine follow (composing.orderFlag _) fun firstFastest => ?_
    split
    · exact ends
    · have reads : ∀ header : Header,
          Kept (Payload.readElements header >>= allocArray) :=
        fun header => composing.bind (composing.readElements header) allocates
      split
      · exact kept (reads _)
      · exact follow composing.skipPadding fun _ => kept (reads _)
  · exact kept (composing.bind composing.readHeaded allocates)

end Composing

end PickleGraph.Payload
