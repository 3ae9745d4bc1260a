import PickleGraph.Machine.Execution
import PickleGraph.Proofs.Decoding.Argument
import PickleGraph.Proofs.Names.Origin
import PickleGraph.Proofs.Objects.Inside

/-!
# Payloads under other names

Neither what an action reads nor what it makes of it depends on the names in the
heap. This goes for arguments and for the payloads of arrays, and for the pickles
inside if it goes for their decoder.
-/

namespace PickleGraph

open Actions

/-! ## Actions -/

section Transfer

variable {ε σ α β : Type}

/-- Where the action succeeds, it has the same success under other names,
wherever the names come from. -/
def Actions.Transfers (rename : σ → Naming → σ)
    (action : EStateM ε σ α) : Prop :=
  ∀ before result after, action before = .ok result after →
    ∀ origin : Origin, ∃ further : Origin, ∀ names,
      action (rename before (origin.naming names)) =
        .ok result (rename after (further.naming names))

namespace Actions.Transfers

variable {rename : σ → Naming → σ}

theorem pure (result : α) :
    Transfers rename (Pure.pure result : EStateM ε σ α) := by
  rintro before _ _ ⟨⟩ origin
  exact ⟨origin, fun _ => rfl⟩

theorem of_fails {action : EStateM ε σ α}
    (fails : Returns (fun _ => False) action) : Transfers rename action :=
  fun before result after success =>
    (fails before result after success).elim

theorem throw (failure : ε) :
    Transfers rename (MonadExcept.throw failure : EStateM ε σ α) :=
  .of_fails (.throw failure)

theorem bind {action : EStateM ε σ α} {next : α → EStateM ε σ β}
    (first : Transfers rename action)
    (second : ∀ value, Transfers rename (next value)) :
    Transfers rename (action >>= next) := by
  intro before result after success origin
  obtain ⟨value, middle, early, late⟩ := bind_eq_ok_iff.mp success
  obtain ⟨between, early⟩ := first before value middle early origin
  obtain ⟨further, late⟩ := second value middle result after late between
  refine ⟨further, fun names => ?_⟩
  rw [bind_of_eq_ok (early names)]
  exact late names

theorem mapM {action : α → EStateM ε σ β} (items : List α)
    (transfers : ∀ item, Transfers rename (action item)) :
    Transfers rename (items.mapM action) := by
  induction items with
  | nil => exact .pure []
  | cons item rest inductionHypothesis =>
      rw [List.mapM_cons]
      refine .bind (transfers item) fun value => ?_
      exact .bind inductionHypothesis fun values => .pure _

theorem arrayMapM {action : α → EStateM ε σ β} (items : Array α)
    (transfers : ∀ item, Transfers rename (action item)) :
    Transfers rename (items.mapM action) := by
  rw [Array.mapM_eq_mapM_toList, map_eq_pure_bind]
  exact .bind (mapM items.toList transfers) fun values => .pure _

end Actions.Transfers

end Transfer

/-! ## Decoding -/

/-- The source over the heap under other names. -/
def Source.renamed (source : Source) (naming : Naming) : Source :=
  { source with heap := source.heap.renamed naming }

namespace Decoding

abbrev Transfers {α : Type} (action : Decoding α) : Prop :=
  Actions.Transfers Source.renamed action

namespace Transfers

variable {α β : Type}

theorem bind {action : Decoding α} {next : α → Decoding β}
    (first : Transfers action) (second : ∀ value, Transfers (next value)) :
    Transfers (action >>= next) :=
  Actions.Transfers.bind first second

theorem arrayMapM {action : α → Decoding β} (items : Array α)
    (transfers : ∀ item, Transfers (action item)) :
    Transfers (items.mapM action) :=
  Actions.Transfers.arrayMapM items transfers

theorem reading (action : Reading α) : Transfers (Decoding.reading action) := by
  intro source result after success origin
  refine ⟨origin, fun names => ?_⟩
  obtain ⟨reader, done, rfl⟩ := reading_eq_ok_iff.mp success
  exact reading_eq_ok_iff.mpr ⟨reader, done, rfl⟩

theorem read (count : Nat) : Transfers (Decoding.read count) :=
  .reading _

theorem tell : Transfers tell? := by
  rintro source _ _ ⟨⟩ origin
  exact ⟨origin, fun _ => rfl⟩

theorem build {change : Heap → Except Failure (α × Heap)}
    (tracks : ∀ (heap : Heap) (origin : Origin),
      origin.Tracks (change heap) fun naming => change (heap.renamed naming)) :
    Transfers (Decoding.build change) := by
  intro source result after success origin
  obtain ⟨heap, made, rfl⟩ := build_eq_ok_iff.mp success
  obtain ⟨further, same⟩ := tracks source.heap origin _ made
  exact ⟨further, fun names => build_eq_ok_iff.mpr ⟨_, same names, rfl⟩⟩

theorem build_of_carries {change : Heap → Except Failure (α × Heap)}
    (carries : ∀ (naming : Naming) (heap : Heap),
      Carries (Heap.carry naming) (change heap)
        (change (heap.renamed naming))) :
    Transfers (Decoding.build change) :=
  .build fun heap _ => .of_carries fun naming => carries naming heap

theorem make {change : Heap → Except Refusal (α × Heap)}
    (carries : ∀ (naming : Naming) (heap : Heap),
      Carries (Heap.carry naming) (change heap)
        (change (heap.renamed naming))) :
    Transfers (Decoding.make change) :=
  .build_of_carries fun naming heap => .mapError (carries naming heap)

theorem query {answer : Heap → Except Failure α}
    (carries : ∀ (naming : Naming) (heap : Heap),
      Carries id (answer heap) (answer (heap.renamed naming))) :
    Transfers (Decoding.query answer) := by
  intro source result after success origin
  obtain ⟨answered, rfl⟩ := Payload.query_eq_ok_iff.mp success
  refine ⟨origin, fun names => Payload.query_eq_ok_iff.mpr ⟨?_, rfl⟩⟩
  exact carries _ _ result answered

theorem ask {answer : Heap → Except Refusal α}
    (same : ∀ (naming : Naming) (heap : Heap),
      answer (heap.renamed naming) = answer heap) :
    Transfers (Decoding.ask answer) := by
  rw [ask_eq_query]
  refine .query fun naming heap => .of_eq ?_
  rw [same]

/-- The rest of an action may look at everything in the heap but the names. -/
theorem heap_bind {next : Heap → Decoding α}
    (same : ∀ (naming : Naming) (heap : Heap),
      next (heap.renamed naming) = next heap)
    (rest : ∀ heap, Transfers (next heap)) :
    Transfers (Decoding.heap >>= next) := by
  intro source result after success origin
  have success : next source.heap source = .ok result after := success
  obtain ⟨further, again⟩ := rest source.heap source result after success origin
  refine ⟨further, fun names => ?_⟩
  show next (source.heap.renamed (origin.naming names)) _ = _
  rw [same]
  exact again names

/-- An object that is made as it is has a name of no opcode. -/
theorem alloc (object : Object) : Transfers (Decoding.alloc object) := by
  rw [alloc_eq_build]
  refine .build fun heap origin => ?_
  rintro _ ⟨⟩
  refine ⟨origin.adding heap none, fun names => ?_⟩
  rw [← Origin.carry_adding, Option.bind_none, Object.named_none]

theorem mapFailure (change : Failure → Failure) {action : Decoding α}
    (transfers : Transfers action) :
    Transfers (Decoding.mapFailure change action) := by
  intro source result after success origin
  obtain ⟨further, again⟩ := transfers source result after
    (mapFailure_eq_ok_iff.mp success) origin
  exact ⟨further, fun names => mapFailure_eq_ok_iff.mpr (again names)⟩

theorem onReader (reader : Reader) {action : Decoding α}
    (transfers : Transfers action) :
    Transfers (Decoding.onReader reader action) := by
  intro source result after success origin
  obtain ⟨middle, done, rfl⟩ := onReader_eq_ok_iff.mp success
  obtain ⟨further, again⟩ :=
    transfers { source with reader } result middle done origin
  exact ⟨further, fun names =>
    onReader_eq_ok_iff.mpr ⟨_, again names, rfl⟩⟩

end Transfers

/-- A direct action does not even see the names. -/
theorem Direct.renamed {α : Type} {action : Decoding α}
    (direct : Direct action) (naming : Naming) {source after : Source}
    {result : α} (success : action source = .ok result after) :
    action (source.renamed naming) = .ok result (after.renamed naming) := by
  have reads : ∀ {action : Reading Bytes} {source after : Source}
      {data : Bytes}, Decoding.reading action source = .ok data after →
      Decoding.reading action (source.renamed naming) =
        .ok data (after.renamed naming) := by
    intro action source after data success
    obtain ⟨reader, done, rfl⟩ := reading_eq_ok_iff.mp success
    exact reading_eq_ok_iff.mpr ⟨reader, done, rfl⟩
  induction direct generalizing source after with
  | pure result =>
      cases success
      rfl
  | throw failure => cases success
  | bind _ _ first second =>
      obtain ⟨value, middle, early, late⟩ := bind_eq_ok_iff.mp success
      rw [bind_of_eq_ok (first early)]
      exact second value late
  | read count => exact reads success
  | readLine => exact reads success
  | answer outcome =>
      cases outcome with
      | ok value =>
          cases success
          rfl
      | error failure => cases success

theorem Direct.transfers {α : Type} {action : Decoding α}
    (direct : Direct action) : Transfers action :=
  fun _ _ _ success origin =>
    ⟨origin, fun _ => direct.renamed _ success⟩

end Decoding

/-! ## Payloads -/

namespace Payload

open Decoding

variable (naming : Naming) {names : CharacterNames}

theorem shapeOf?_renamed (heap : Heap) (value : Value) :
    shapeOf? (heap.renamed naming) value = shapeOf? heap value := by
  cases value with
  | object address =>
      simp only [shapeOf?, Heap.get_renamed]
      cases heap.get address <;> rfl
  | _ => rfl

theorem isText_renamed (heap : Heap) (text : Text) (depth : Nat)
    (value : Value) :
    isText (heap.renamed naming) text depth value =
      isText heap text depth value := by
  induction depth generalizing value with
  | zero => rfl
  | succ depth inductionHypothesis =>
      simp only [isText, Heap.array?_renamed, inductionHypothesis]

theorem transfers_readExact (count : Nat) : Transfers (readExact count) := by
  refine .bind .tell fun place => ?_
  refine .bind (.mapFailure _ (.read count)) fun data => ?_
  split
  · exact .throw _
  · exact .pure data

theorem transfers_literalValue (place : Option Nat) (text : Text) :
    Transfers (literalValue names place text) := by
  unfold literalValue
  cases Literal.parse? names text with
  | none => exact .throw _
  | some literal =>
      exact .mapFailure _ (.make fun naming heap =>
        Literal.carries_evaluate naming literal heap)

theorem transfers_checkShape (value : Value) (place : Option Nat) :
    Transfers (checkShape value place) := by
  refine .heap_bind (fun naming heap => ?_) fun heap => ?_
  · rw [shapeOf?_renamed]
  · cases shapeOf? heap value with
    | none => exact .of_fails (.bind fun text => .throw _)
    | some shape => exact .pure shape

theorem transfers_withTupleFields (value : Value) :
    Transfers (withTupleFields value) := by
  refine .heap_bind (fun naming heap => ?_) fun heap => ?_
  · cases value with
    | object address =>
        simp only [Heap.get_renamed]
        cases heap.get address <;> rfl
    | _ => rfl
  · split
    · split
      · refine .bind (.arrayMapM _ fun item => ?_) fun fields => ?_
        · refine .bind (.make fun naming heap => ?_) fun items => .pure _
          exact Heap.carries_iterate naming heap item
        · exact .alloc _
      · exact .pure _
    · exact .pure _

theorem transfers_headerOf (entries : List (Value × Value))
    (place : Option Nat) (missing : Cause) :
    Transfers (headerOf entries place missing) := by
  unfold headerOf
  dsimp only
  cases Entries.findText? "descr" entries with
  | none => exact .throw _
  | some description =>
  cases Entries.findText? "fortran_order" entries with
  | none => exact .throw _
  | some order =>
  cases Entries.findText? "shape" entries with
  | none => exact .throw _
  | some shape =>
      refine .bind (transfers_checkShape shape place) fun shape => ?_
      cases order with
      | bool firstFastest =>
          refine .bind (transfers_withTupleFields description) fun fields => ?_
          exact .bind (.query fun _ _ => Heap.carries_payloadDtype fields)
            fun type => .pure _
      | _ => exact .of_fails (.bind fun text => .throw _)

theorem transfers_readHeader : Transfers (readHeader names) := by
  refine .bind .tell fun place => ?_
  refine .bind (transfers_readExact _) fun found => ?_
  split
  · exact .throw _
  · refine .bind (transfers_readExact 2) fun version => ?_
    dsimp only
    cases lengthWidth? (version.headD 0).toNat with
    | none => exact .throw _
    | some width =>
        refine .bind (transfers_readExact width) fun length => ?_
        refine .bind (transfers_readExact _) fun content => ?_
        cases headerText (headerCharset (version.headD 0).toNat) content with
        | error cause => exact .throw _
        | ok text =>
            refine .bind (transfers_literalValue place text) fun value => ?_
            refine .heap_bind (fun naming heap => ?_) fun heap => ?_
            · rw [Heap.entries?_renamed]
            · cases heap.entries? value with
              | none => exact .throw _
              | some entries => exact transfers_headerOf entries _ _

theorem transfers_allocArray (array : NdArray) :
    Transfers (allocArray array) :=
  .alloc _

theorem transfers_readElements (header : Header) :
    Transfers (readElements header) := by
  unfold readElements
  split
  · exact .of_fails (.bind fun place => .throw _)
  · exact .bind (transfers_readExact _) fun data => .ask fun _ _ => rfl

theorem transfers_readHeaded : Transfers (readHeaded names) :=
  .bind transfers_readHeader transfers_readElements

theorem transfers_skipPadding : Transfers skipPadding := by
  refine .bind (transfers_readExact 1) fun length => ?_
  split
  · split
    · exact .bind (transfers_readExact _) fun _ => .pure _
    · exact .pure _
  · exact .pure _

theorem transfers_orderFlag (value : Value) : Transfers (orderFlag value) := by
  have names : ∀ name : String, Transfers (Decoding.ask fun heap =>
      isText heap (Text.ofString name) (heap.objects.size + 1) value) := by
    intro name
    refine .ask fun naming heap => ?_
    rw [isText_renamed, Heap.size_renamed]
  refine .bind (names "F") fun isFirst => ?_
  split
  · exact .pure _
  · refine .bind (names "C") fun isLast => ?_
    split
    · exact .pure _
    · exact .of_fails (.bind fun text => .bind fun place => .throw _)

/-! ## Pickles inside -/

/-- What a pickle inside stands for: the array that its record describes, or else
the array that it gives itself. -/
inductive StandsFor (heap : Heap) (value : Value) : Value → Heap → Prop
  | rebuilt {array : NdArray} {after : Heap} :
      Rebuilds heap value array after →
      StandsFor heap value (.object after.objects.size)
        (after.alloc (.array array)).2
  | itself : (heap.array? value).isSome = true →
      StandsFor heap value value heap

theorem record?_of_array? {heap : Heap} {value : Value}
    (isArray : (heap.array? value).isSome = true) :
    heap.record? value = none := by
  cases value with
  | object address =>
      simp only [Heap.array?, Heap.record?] at isArray ⊢
      cases object : heap.get address with
      | record record =>
          rw [object] at isArray
          cases isArray
      | _ => rfl
  | _ => rfl

variable {nested : Decoding Value} {source : Source}

theorem standsFor_of_readNested {result : Value} {after : Source}
    (success : readNested nested source = .ok result after) :
    ∃ value middle, nested source = .ok value middle ∧
      after.reader = middle.reader ∧
      StandsFor middle.heap value result after.heap := by
  rw [readNested_eq] at success
  obtain ⟨array, last, mapped, accepted⟩ := bind_eq_ok_iff.mp success
  have made := mapFailure_eq_ok_iff.mp mapped
  obtain ⟨value, middle, decoded, made⟩ := bind_eq_ok_iff.mp made
  refine ⟨value, middle, decoded, ?_⟩
  have isArray : (last.heap.array? array).isSome = true ∧
      result = array ∧ after = last := by
    unfold acceptArray at accepted
    rw [heap_bind] at accepted
    split at accepted
    · next isArray =>
        cases accepted
        exact ⟨isArray, rfl, rfl⟩
    · cases accepted
  obtain ⟨isArray, rfl, rfl⟩ := isArray
  rw [heap_bind] at made
  cases isRecord : middle.heap.record? value with
  | none =>
      rw [isRecord] at made
      cases made
      exact ⟨rfl, .itself isArray⟩
  | some found =>
      obtain ⟨address, record⟩ := found
      rw [isRecord] at made
      dsimp only at made
      split at made
      · next isDescribed =>
          obtain ⟨array, between, built, allocated⟩ := bind_eq_ok_iff.mp made
          obtain ⟨heap, rebuilt, rfl⟩ := build_eq_ok_iff.mp built
          cases allocated
          exact ⟨rfl, .rebuilt ⟨address, record, isRecord, isDescribed,
            rebuilt⟩⟩
      · cases made
        rw [record?_of_array? isArray] at isRecord
        cases isRecord

theorem readNested_of_standsFor {value result : Value} {middle : Source}
    {after : Heap} (decoded : nested source = .ok value middle)
    (standsFor : StandsFor middle.heap value result after) :
    readNested nested source = .ok result ⟨middle.reader, after⟩ := by
  cases standsFor with
  | rebuilt rebuilds => exact readNested_of_rebuilds decoded rebuilds
  | itself isArray =>
      have made : nestedValue nested source = .ok value middle := by
        unfold nestedValue
        rw [bind_of_eq_ok decoded, heap_bind, record?_of_array? isArray]
        rfl
      rw [readNested_eq,
        bind_of_eq_ok (mapFailure_eq_ok_iff.mpr made)]
      unfold acceptArray
      rw [heap_bind, if_pos isArray]
      rfl

theorem StandsFor.renamed {heap after : Heap} {value result : Value}
    (standsFor : StandsFor heap value result after) :
    StandsFor (heap.renamed naming) value result (after.renamed naming) := by
  cases standsFor with
  | @rebuilt array after rebuilds =>
      obtain ⟨address, record, isRecord, isDescribed, rebuilt⟩ := rebuilds
      have again : Rebuilds (heap.renamed naming) value array
          (after.renamed naming) := by
        refine ⟨address, record.named (naming address), ?_, ?_, ?_⟩
        · rw [Heap.record?_renamed, isRecord]
          rfl
        · rw [Record.kind_named]
          exact isDescribed
        · exact Heap.carries_arrayOfRecord record _ _ rebuilt
      have stands := StandsFor.rebuilt again
      have allocated : (after.renamed naming).alloc (.array array) = _ :=
        Heap.carry_alloc naming after fun _ => rfl
      rw [Heap.size_renamed, allocated] at stands
      exact stands
  | itself isArray =>
      refine .itself ?_
      rw [Heap.array?_renamed]
      exact isArray

theorem transfers_readNested (transfers : Transfers nested) :
    Transfers (readNested nested) := by
  intro source result after success origin
  obtain ⟨value, middle, decoded, reader, standsFor⟩ :=
    standsFor_of_readNested success
  obtain ⟨further, decoded⟩ := transfers source value middle decoded origin
  refine ⟨further, fun names => ?_⟩
  rw [readNested_of_standsFor (decoded names) (standsFor.renamed _)]
  unfold Source.renamed
  rw [reader]

/-! ## Placeholders -/

theorem ask_eq_ok_iff {α : Type} {answer : Heap → Except Refusal α}
    {result : α} {after : Source} :
    ask answer source = .ok result after ↔
      answer source.heap = .ok result ∧ after = source := by
  rw [ask_eq_query, query_eq_ok_iff, mapError_eq_ok_iff]

variable {naming} in
theorem orderFlag_renamed {value : Value} {isFirst : Bool}
    {other after : Source}
    (renamed : other.heap = source.heap.renamed naming)
    (success : orderFlag value source = .ok isFirst after) :
    orderFlag value other = .ok isFirst other := by
  have names : ∀ (name : String) (answer : Bool),
      isOrder source.heap name value = .ok answer →
      ask (fun heap => isOrder heap name value) other = .ok answer other := by
    intro name answer answered
    refine ask_eq_ok_iff.mpr ⟨?_, rfl⟩
    unfold isOrder at answered ⊢
    rw [renamed, isText_renamed, Heap.size_renamed]
    exact answered
  obtain ⟨isFortran, middle, asked, rest⟩ := bind_eq_ok_iff.mp success
  obtain ⟨answered, rfl⟩ := ask_eq_ok_iff.mp asked
  refine (bind_of_eq_ok (names "F" isFortran answered)).trans ?_
  cases isFortran with
  | true =>
      cases rest
      rfl
  | false =>
      obtain ⟨isC, last, asked, rest⟩ := bind_eq_ok_iff.mp rest
      obtain ⟨answered, rfl⟩ := ask_eq_ok_iff.mp asked
      refine (bind_of_eq_ok (names "C" isC answered)).trans ?_
      cases isC with
      | true =>
          cases rest
          rfl
      | false =>
          obtain ⟨text, quoted, _, rest⟩ := bind_eq_ok_iff.mp rest
          cases rest

variable {naming} in
/-- Other names, of the placeholder or of anything else, and another place
announce the same elements. -/
theorem Announces.renamed {record : Record} {header : Header}
    {other : Source} (announces : Announces record source header)
    (key? : Option TypeKey)
    (renamed : other.heap = source.heap.renamed naming) :
    Announces (record.named key?) other header := by
  obtain ⟨⟨type, hasType, isType⟩, ⟨shape, hasShape, isShape⟩, isOrder⟩ :=
    announces
  refine ⟨⟨type, ?_, ?_⟩, ⟨shape, ?_, ?_⟩, ?_⟩
  · rw [Record.field?_named]
    exact hasType
  · rw [renamed]
    exact Heap.carries_payloadDtype type _ isType
  · rw [Record.field?_named]
    exact hasShape
  · rw [renamed, shapeOf?_renamed]
    exact isShape
  · unfold orderField at isOrder ⊢
    rw [Record.field?_named]
    exact orderFlag_renamed renamed isOrder

theorem transfers_readAnnounced (transfers : Transfers nested)
    (record : Record) (header : Header) :
    Transfers (readAnnounced record nested header) := by
  unfold readAnnounced skipAlignment
  split
  · exact transfers_readNested transfers
  · have elements : Transfers (readElements header >>= allocArray) :=
      .bind (transfers_readElements header) transfers_allocArray
    split
    · exact .bind (.pure ()) fun _ => elements
    · exact .bind transfers_skipPadding fun _ => elements

theorem transfers_readInline (transfers : Transfers nested)
    (record : Record) : Transfers (readInline names record nested) := by
  cases hasType : record.field? "dtype" with
  | none =>
      rw [readInline_of_header (.inl hasType)]
      exact .bind transfers_readHeaded transfers_allocArray
  | some type =>
  cases hasShape : record.field? "shape" with
  | none =>
      rw [readInline_of_header (.inr hasShape)]
      exact .bind transfers_readHeaded transfers_allocArray
  | some shape =>
      rw [readInline_of_fields hasType hasShape]
      refine .bind (.query fun _ _ => Heap.carries_payloadDtype type)
        fun element => ?_
      refine .bind .tell fun place => ?_
      refine .bind (transfers_checkShape shape place) fun extents => ?_
      exact .bind (transfers_orderFlag _) fun firstFastest =>
        transfers_readAnnounced transfers record _

theorem transfers_readSibling (record : Record)
    (siblings? : Option Siblings) :
    Transfers (readSibling names record siblings?) := by
  unfold readSibling
  cases (record.field "filename").text? with
  | none => exact .throw _
  | some fileName =>
  cases siblings? with
  | none => exact .throw _
  | some siblings =>
      dsimp only
      cases siblings fileName with
      | error failure => exact .throw _
      | ok reader =>
          exact .bind (.onReader reader transfers_readHeaded)
            transfers_allocArray

end Payload

namespace Execution

open Decoding

variable {options : Options} {nested : Decoding Value}

theorem transfers_materialize (transfers : Transfers nested)
    (layout : ArrayLayout) (record : Record) :
    Transfers (materialize options nested layout record) := by
  cases layout with
  | inline => exact Payload.transfers_readInline transfers record
  | sibling => exact Payload.transfers_readSibling record options.siblings?

/-- The name of a placeholder is told only where its file cannot be. -/
theorem materialize_named (layout : ArrayLayout) (record : Record)
    (key? : Option TypeKey) {source after : Source} {array : Value}
    (success : materialize options nested layout record source =
      .ok array after) :
    materialize options nested layout (record.named key?) source =
      .ok array after := by
  cases layout with
  | inline =>
      have same : Payload.readInline options.names (record.named key?) nested =
          Payload.readInline options.names record nested := by
        unfold Payload.readInline
        simp only [Record.field?_named, Record.field_named]
      exact (congrFun same source).trans success
  | sibling =>
      have success : Payload.readSibling options.names record options.siblings? source =
          .ok array after := success
      show Payload.readSibling options.names (record.named key?) options.siblings? source =
        .ok array after
      unfold Payload.readSibling at success ⊢
      rw [Record.field_named]
      cases name : (record.field "filename").text? with
      | none =>
          rw [name] at success
          cases success
      | some fileName =>
          rw [name] at success
          exact success

end Execution

end PickleGraph
