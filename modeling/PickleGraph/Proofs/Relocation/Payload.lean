import PickleGraph.Proofs.Names.Payload
import PickleGraph.Proofs.Relocation.Construction
import PickleGraph.Proofs.Relocation.Reader

/-!
# Payloads over another heap

An action reads the same bytes from a reader that follows, and builds the same
objects behind those of another heap. This goes for arguments and for the payloads
of arrays, and for the pickles inside if it goes for their decoder.
-/

namespace PickleGraph

open Actions

/-- A source with a related reader, and with its heap over the heap below. -/
structure Source.Mirrors (related : Reader → Reader → Prop) (below : Heap)
    (source other : Source) : Prop where
  reader : related source.reader other.reader
  heap : other.heap = source.heap.atop below

namespace Decoding

/-- Where the first action succeeds, the second one gives the changed result from
a related reader and over the heap below. -/
abbrev Mirrors {α β : Type} (related : Reader → Reader → Prop)
    (below : Heap) (change : α → β) (first : Decoding α)
    (second : Decoding β) : Prop :=
  Actions.Mirrors (Source.Mirrors related below) change first second

namespace Mirrors

variable {related : Reader → Reader → Prop} {below : Heap}
variable {α β α' β' : Type} {change : α → α'}

theorem bind {between : β → β'} {first : Decoding β} {second : Decoding β'}
    {next : β → Decoding α} {further : β' → Decoding α'}
    (mirrors : Mirrors related below between first second)
    (rest : ∀ value, Mirrors related below change (next value)
      (further (between value))) :
    Mirrors related below change (first >>= next) (second >>= further) :=
  Actions.Mirrors.bind mirrors rest

theorem of_fails {first : Decoding α} {second : Decoding α'}
    (fails : Returns (fun _ => False) first) :
    Mirrors related below change first second :=
  Actions.Mirrors.of_fails fails

theorem throw (failure : Failure) (second : Decoding α') :
    Mirrors related below change (MonadExcept.throw failure : Decoding α)
      second :=
  Actions.Mirrors.throw failure second

theorem arrayMapM {before : β → β'} {first : β → Decoding α}
    {second : β' → Decoding α'} (items : Array β)
    (mirrors : ∀ item, Mirrors related below change (first item)
      (second (before item))) :
    Mirrors related below (Array.map change) (items.mapM first)
      ((items.map before).mapM second) :=
  Actions.Mirrors.arrayMapM items mirrors

theorem reading {first second : Reading α}
    (mirrors : Actions.Mirrors related id first second) :
    Mirrors related below id (Decoding.reading first)
      (Decoding.reading second) := by
  intro before other result after start success
  obtain ⟨reader, done, rfl⟩ := reading_eq_ok_iff.mp success
  obtain ⟨later, again, still⟩ :=
    mirrors before.reader other.reader result reader start.reader done
  exact ⟨_, reading_eq_ok_iff.mpr ⟨later, again, rfl⟩, still, start.heap⟩

theorem read (followed : Reader.IsFollowed related) (count : Nat) :
    Mirrors related below id (Decoding.read count) (Decoding.read count) :=
  .reading (followed.read count)

/-- Only failures say where a reader stands. -/
theorem tell_bind {next : Option Nat → Decoding α}
    {second : Option Nat → Decoding α'}
    (rest : ∀ place other,
      Mirrors related below change (next place) (second other)) :
    Mirrors related below change (tell? >>= next) (tell? >>= second) :=
  fun before other result after start success =>
    rest before.reader.tell? other.reader.tell? before other result after
      start success

theorem build {first : Heap → Except Failure (α × Heap)}
    {second : Heap → Except Failure (α' × Heap)}
    (same : ∀ heap : Heap, second (heap.atop below) =
      (first heap).map (Heap.carryOver below change)) :
    Mirrors related below change (Decoding.build first)
      (Decoding.build second) := by
  intro before other result after start success
  obtain ⟨heap, made, rfl⟩ := build_eq_ok_iff.mp success
  refine ⟨_, build_eq_ok_iff.mpr ⟨heap.atop below, ?_, rfl⟩, start.reader, rfl⟩
  rw [start.heap, same, made]
  rfl

theorem make {first : Heap → Except Refusal (α × Heap)}
    {second : Heap → Except Refusal (α' × Heap)}
    (same : ∀ heap : Heap, second (heap.atop below) =
      (first heap).map (Heap.carryOver below change)) :
    Mirrors related below change (Decoding.make first)
      (Decoding.make second) := by
  refine .build fun heap => ?_
  rw [same, refused_map]

theorem query {first : Heap → Except Failure α}
    {second : Heap → Except Failure α'}
    (same : ∀ heap : Heap,
      second (heap.atop below) = (first heap).map change) :
    Mirrors related below change (Decoding.query first)
      (Decoding.query second) := by
  intro before other result after start success
  obtain ⟨answered, rfl⟩ := Payload.query_eq_ok_iff.mp success
  refine ⟨other, Payload.query_eq_ok_iff.mpr ⟨?_, rfl⟩, start⟩
  rw [start.heap, same, answered]
  rfl

theorem ask {first : Heap → Except Refusal α}
    {second : Heap → Except Refusal α'}
    (same : ∀ heap : Heap,
      second (heap.atop below) = (first heap).map change) :
    Mirrors related below change (Decoding.ask first)
      (Decoding.ask second) := by
  rw [ask_eq_query, ask_eq_query]
  refine .query fun heap => ?_
  rw [same, except_map_mapError]

theorem heap_bind {next : Heap → Decoding α} {further : Heap → Decoding α'}
    (rest : ∀ heap : Heap, Mirrors related below change (next heap)
      (further (heap.atop below))) :
    Mirrors related below change (Decoding.heap >>= next)
      (Decoding.heap >>= further) := by
  intro before other result after start success
  have again := rest before.heap before other result after start success
  rw [← start.heap] at again
  exact again

theorem alloc (object : Object) :
    Mirrors related below (Value.shifted below.shift)
      (Decoding.alloc object)
      (Decoding.alloc (object.shifted below.shift)) := by
  rw [alloc_eq_build, alloc_eq_build]
  exact .build fun heap =>
    congrArg Except.ok (Heap.carryOver_alloc below heap object)

theorem mapFailure {first : Decoding α} {second : Decoding α'}
    (failures otherFailures : Failure → Failure)
    (mirrors : Mirrors related below change first second) :
    Mirrors related below change (Decoding.mapFailure failures first)
      (Decoding.mapFailure otherFailures second) := by
  intro before other result after start success
  obtain ⟨later, again, still⟩ := mirrors before other result after start
    (mapFailure_eq_ok_iff.mp success)
  exact ⟨later, mapFailure_eq_ok_iff.mpr again, still⟩

/-- On a reader of their own both actions read the very same. -/
theorem onReader (reader : Reader) {first : Decoding α}
    {second : Decoding α'} (mirrors : Mirrors Eq below change first second) :
    Mirrors related below change (Decoding.onReader reader first)
      (Decoding.onReader reader second) := by
  intro before other result after start success
  obtain ⟨middle, done, rfl⟩ := onReader_eq_ok_iff.mp success
  obtain ⟨later, again, still⟩ := mirrors { before with reader }
    { other with reader } result middle ⟨rfl, start.heap⟩ done
  exact ⟨_, onReader_eq_ok_iff.mpr ⟨later, again, rfl⟩, start.reader,
    still.heap⟩

end Mirrors

/-- A direct action asks for nothing in the heap and makes nothing there. -/
theorem Direct.mirrors {related : Reader → Reader → Prop}
    (followed : Reader.IsFollowed related) (below : Heap) {α : Type}
    {action : Decoding α} (direct : Direct action) :
    Mirrors related below id action action := by
  induction direct with
  | pure result => exact .pure result
  | throw failure => exact .throw failure _
  | bind _ _ first second => exact .bind first second
  | read count => exact .read followed count
  | readLine => exact .reading followed.readLine
  | answer outcome => exact .query fun _ => (Except.map_id).symm ▸ rfl

end Decoding

/-! ## Payloads -/

namespace Payload

open Decoding

section Questions

variable (below heap : Heap)

@[simp] theorem shapeOf?_atop (value : Value) :
    shapeOf? (heap.atop below) (value.shifted below.shift) =
      shapeOf? heap value := by
  cases value with
  | tuple items =>
      rw [Value.shifted_tuple]
      unfold shapeOf?
      dsimp only
      rw [List.mapM_map]
      congr 1
      funext item
      cases item <;> rfl
  | object address =>
      simp only [shapeOf?, Value.shifted_object, Heap.get_atop]
      cases heap.get address with
      | list items =>
          simp only [Object.shifted, Array.toList_map]
          rw [List.mapM_map]
          congr 1
          funext item
          cases item <;> rfl
      | _ => rfl
  | _ => rfl

theorem isText_atop (text : Text) (depth : Nat) (value : Value) :
    isText (heap.atop below) text depth (value.shifted below.shift) =
      isText heap text depth value := by
  induction depth generalizing value with
  | zero => rfl
  | succ depth inductionHypothesis =>
      have same := Value.matchesKey_shifted below.shift (.str text) value
      rw [Value.shifted_str] at same
      rw [isText, isText, Heap.array?_atop]
      cases heap.array? value with
      | none => exact congrArg Except.ok same
      | some array =>
          obtain ⟨type, shape, content, writable⟩ := array
          cases content with
          | raw data => rfl
          | items values =>
              cases values with
              | nil => rfl
              | cons item rest =>
                  have first := inductionHypothesis item
                  simp only [Option.map_some, NdArray.shifted,
                    ArrayContent.shifted, List.map_cons, first]
                  rfl

variable {below heap}

/-- Once a value is equal to some text, its comparisons have come to an end, and
more depth changes none of them. -/
theorem isText_add {text : Text} {depth : Nat} {value : Value}
    (settled : isText heap text depth value = .ok true) (other : Text)
    (more : Nat) :
    isText heap other (depth + more) value =
      isText heap other depth value := by
  induction depth generalizing value with
  | zero => cases settled
  | succ depth inductionHypothesis =>
      rw [Nat.add_right_comm]
      rw [isText] at settled
      rw [isText, isText]
      cases isArray : heap.array? value with
      | none => rfl
      | some array =>
          rw [isArray] at settled
          dsimp only at settled ⊢
          split
          · rfl
          · next single =>
              rw [if_neg single] at settled
              cases content : array.content with
              | raw data => rfl
              | items values =>
                  rw [content] at settled
                  cases values with
                  | nil => rfl
                  | cons item rest => exact inductionHypothesis settled

end Questions

variable {related : Reader → Reader → Prop} (below : Heap)
variable {names : CharacterNames}

/-! ## Headers -/

theorem mirrors_literalValue (place other : Option Nat) (text : Text) :
    Mirrors related below (Value.shifted below.shift)
      (literalValue names place text) (literalValue names other text) := by
  unfold literalValue
  cases Literal.parse? names text with
  | none => exact .throw _ _
  | some literal =>
      exact .mapFailure _ _ (.make fun heap =>
        Literal.carryOver_evaluate below literal heap)

theorem mirrors_checkShape (value : Value) (place other : Option Nat) :
    Mirrors related below id (checkShape value place)
      (checkShape (value.shifted below.shift) other) := by
  refine .heap_bind fun heap => ?_
  rw [shapeOf?_atop]
  cases shapeOf? heap value with
  | none => exact .of_fails (.bind fun text => .throw _)
  | some shape => exact .pure shape

theorem mirrors_payloadDtype (value : Value) :
    Mirrors related below id (query (·.payloadDtype value))
      (query (·.payloadDtype (value.shifted below.shift))) := by
  refine .query fun heap => ?_
  rw [Heap.payloadDtype_atop]
  exact (id_map (heap.payloadDtype value)).symm

theorem mirrors_withTupleFields (value : Value) :
    Mirrors related below (Value.shifted below.shift)
      (withTupleFields value)
      (withTupleFields (value.shifted below.shift)) := by
  refine .heap_bind fun heap => ?_
  cases value with
  | object address =>
      simp only [Value.shifted_object, Heap.get_atop]
      cases heap.get address with
      | list items =>
          refine .bind (.arrayMapM items fun item => ?_) fun fields =>
            .alloc (.list fields)
          refine .bind (.make fun heap =>
            Heap.carryOver_iterate below heap item) fun items => ?_
          rw [← Value.shifted_tuple]
          exact .pure (Value.tuple items)
      | _ => exact .pure (Value.object address)
  | tuple items =>
      have itself : Mirrors related below (Value.shifted below.shift) _ _ :=
        .pure (Value.tuple items)
      rw [Value.shifted_tuple] at itself ⊢
      exact itself
  | _ => exact .pure _

theorem mirrors_headerOf (entries : List (Value × Value))
    (place other : Option Nat) (missing : Cause) :
    Mirrors related below id (headerOf entries place missing)
      (headerOf (entries.map (shiftedEntry below.shift)) other missing) := by
  unfold headerOf
  dsimp only
  rw [Entries.findText?_shifted, Entries.findText?_shifted,
    Entries.findText?_shifted]
  cases Entries.findText? "descr" entries with
  | none => exact .throw _ _
  | some description =>
  cases Entries.findText? "fortran_order" entries with
  | none => exact .throw _ _
  | some order =>
  cases Entries.findText? "shape" entries with
  | none => exact .throw _ _
  | some shape =>
      refine .bind (mirrors_checkShape below shape place other)
        fun shape => ?_
      cases order with
      | bool firstFastest =>
          refine .bind (mirrors_withTupleFields below description)
            fun fields => ?_
          exact .bind (mirrors_payloadDtype below fields) fun type =>
            .pure _
      | _ => exact .of_fails (.bind fun text => .throw _)

section Followed

variable (followed : Reader.IsFollowed related)
include followed

theorem mirrors_readExact (count : Nat) :
    Mirrors related below id (readExact count) (readExact count) := by
  refine .tell_bind fun place other => ?_
  refine .bind (.mapFailure _ _ (.read followed count)) fun data => ?_
  dsimp only [id]
  split
  · exact .throw _ _
  · exact .pure data

theorem mirrors_readHeader :
    Mirrors related below id (readHeader names) (readHeader names) := by
  refine .tell_bind fun place other => ?_
  refine .bind (mirrors_readExact below followed _) fun found => ?_
  dsimp only [id]
  split
  · exact .throw _ _
  · refine .bind (mirrors_readExact below followed 2) fun version => ?_
    dsimp only [id]
    cases lengthWidth? (version.headD 0).toNat with
    | none => exact .throw _ _
    | some width =>
        refine .bind (mirrors_readExact below followed width)
          fun length => ?_
        refine .bind (mirrors_readExact below followed _) fun content => ?_
        dsimp only [id]
        cases headerText (headerCharset (version.headD 0).toNat) content with
        | error cause => exact .throw _ _
        | ok text =>
            refine .bind (mirrors_literalValue below place other text)
              fun value => ?_
            refine .heap_bind fun heap => ?_
            rw [Heap.entries?_atop]
            cases heap.entries? value with
            | none => exact .throw _ _
            | some entries => exact mirrors_headerOf below entries _ _ _

/-! ## Elements -/

theorem mirrors_readElements (header : Header) :
    Mirrors related below (NdArray.shifted below.shift)
      (readElements header) (readElements header) := by
  unfold readElements
  split
  · exact .of_fails (.bind fun place => .throw _)
  · refine .bind (mirrors_readExact below followed _) fun data => ?_
    refine .ask fun heap => ?_
    dsimp only [id]
    have lined := NdArray.ofBuffer_shifted below.shift header.type data
      (some (header.shape.foldl (· * ·) 1)) false
    refine (congrArg (· >>= _) lined.symm).trans ?_
    rw [except_map_bind, except_bind_map]
    exact except_bind_congr fun line =>
      NdArray.reshape_shifted below.shift line _ _

theorem mirrors_readHeaded :
    Mirrors related below (NdArray.shifted below.shift) (readHeaded names)
      (readHeaded names) :=
  .bind (mirrors_readHeader below followed)
    (mirrors_readElements below followed)

theorem mirrors_skipPadding :
    Mirrors related below id skipPadding skipPadding := by
  refine .bind (mirrors_readExact below followed 1) fun length => ?_
  cases length with
  | nil => exact .pure ()
  | cons first rest =>
      dsimp only [id]
      split
      · exact .bind (mirrors_readExact below followed _) fun _ => .pure ()
      · exact .pure ()

end Followed

theorem mirrors_allocArray (array : NdArray) :
    Mirrors related below (Value.shifted below.shift) (allocArray array)
      (allocArray (array.shifted below.shift)) :=
  .alloc (.array array)

/-! ## Pickles inside -/

theorem StandsFor.atop {heap after : Heap} {value result : Value}
    (standsFor : StandsFor heap value result after) :
    StandsFor (heap.atop below) (value.shifted below.shift)
      (result.shifted below.shift) (after.atop below) := by
  cases standsFor with
  | @rebuilt array after rebuilds =>
      obtain ⟨address, record, isRecord, isDescribed, rebuilt⟩ := rebuilds
      have again : Rebuilds (heap.atop below) (value.shifted below.shift)
          (array.shifted below.shift) (after.atop below) := by
        refine ⟨address + below.shift.objects, record.shifted below.shift,
          ?_, isDescribed, ?_⟩
        · rw [Heap.record?_atop, isRecord]
          rfl
        · rw [Heap.carryOver_arrayOfRecord, rebuilt]
          rfl
      have stands := StandsFor.rebuilt again
      have allocated : ((after.atop below).alloc
          (.array (array.shifted below.shift))).2 =
            (after.alloc (.array array)).2.atop below :=
        congrArg Prod.snd (Heap.carryOver_alloc below after (.array array))
      have address : (after.atop below).objects.size =
          after.objects.size + below.shift.objects := by
        rw [Heap.size_atop]
        exact Nat.add_comm _ _
      rw [address, allocated] at stands
      exact stands
  | itself isArray =>
      refine .itself ?_
      rw [Heap.array?_atop, Option.isSome_map]
      exact isArray

theorem mirrors_readNested {nested inner : Decoding Value}
    (mirrors : Mirrors related below (Value.shifted below.shift) nested
      inner) :
    Mirrors related below (Value.shifted below.shift) (readNested nested)
      (readNested inner) := by
  intro before other result after start success
  obtain ⟨value, middle, decoded, reader, standsFor⟩ :=
    standsFor_of_readNested success
  obtain ⟨later, decodedAgain, still⟩ :=
    mirrors before other value middle start decoded
  have stands := standsFor.atop below
  rw [← still.heap] at stands
  refine ⟨_, readNested_of_standsFor decodedAgain stands, ?_, rfl⟩
  rw [reader]
  exact still.reader

/-! ## Placeholders -/

/-- A value that is the name of an order is compared alike, though the heap below
allows for more depth. -/
theorem isOrder_atop {heap : Heap} {name : String} {value : Value}
    (settled : isOrder heap name value = .ok true) (other : String) :
    isOrder (heap.atop below) other (value.shifted below.shift) =
      isOrder heap other value := by
  have depth : (heap.atop below).objects.size + 1 =
      heap.objects.size + 1 + below.objects.size := by
    rw [Heap.size_atop]
    omega
  unfold isOrder
  rw [isText_atop, depth]
  exact isText_add settled (Text.ofString other) below.objects.size

theorem mirrors_orderFlag (value : Value) :
    Mirrors related below id (orderFlag value)
      (orderFlag (value.shifted below.shift)) := by
  intro before other isFirst after start success
  have byName : ∀ {settled name : String} {answer : Bool},
      isOrder before.heap settled value = .ok true →
      isOrder before.heap name value = .ok answer →
      ask (fun heap => isOrder heap name (value.shifted below.shift)) other =
        .ok answer other := by
    intro settled name answer isName answered
    refine ask_eq_ok_iff.mpr ⟨?_, rfl⟩
    rw [start.heap, isOrder_atop below isName]
    exact answered
  obtain ⟨isFortran, middle, asked, rest⟩ := bind_eq_ok_iff.mp success
  obtain ⟨answered, rfl⟩ := ask_eq_ok_iff.mp asked
  cases isFortran with
  | true =>
      cases rest
      exact ⟨other, bind_of_eq_ok (byName answered answered), start⟩
  | false =>
      obtain ⟨isC, last, asked, rest⟩ := bind_eq_ok_iff.mp rest
      obtain ⟨answeredC, rfl⟩ := ask_eq_ok_iff.mp asked
      cases isC with
      | true =>
          cases rest
          refine ⟨other, ?_, start⟩
          exact (bind_of_eq_ok (byName answeredC answered)).trans
            (bind_of_eq_ok (byName answeredC answeredC))
      | false =>
          obtain ⟨text, quoted, _, rest⟩ := bind_eq_ok_iff.mp rest
          cases rest

section Records

variable (followed : Reader.IsFollowed related) (record : Record)
variable {nested inner : Decoding Value}
variable (mirrors : Mirrors related below (Value.shifted below.shift) nested
  inner)

include followed

theorem mirrors_skipAlignment :
    Mirrors related below id (skipAlignment record)
      (skipAlignment (record.shifted below.shift)) := by
  unfold skipAlignment
  rw [Record.field_shifted]
  cases record.field "numpy_array_alignment_bytes" with
  | none => exact .pure ()
  | tuple items =>
      rw [Value.shifted_tuple]
      exact mirrors_skipPadding below followed
  | _ => exact mirrors_skipPadding below followed

include mirrors

theorem mirrors_readAnnounced (header : Header) :
    Mirrors related below (Value.shifted below.shift)
      (readAnnounced record nested header)
      (readAnnounced (record.shifted below.shift) inner header) := by
  unfold readAnnounced
  split
  · exact mirrors_readNested below mirrors
  · refine .bind (mirrors_skipAlignment below followed record) fun _ => ?_
    exact .bind (mirrors_readElements below followed header)
      (mirrors_allocArray below)

theorem mirrors_readInline :
    Mirrors related below (Value.shifted below.shift)
      (readInline names record nested)
      (readInline names (record.shifted below.shift) inner) := by
  have headed : Mirrors related below (Value.shifted below.shift)
      (readHeaded names >>= allocArray) (readHeaded names >>= allocArray) :=
    .bind (mirrors_readHeaded below followed) (mirrors_allocArray below)
  have typeAgain := Record.field?_shifted below.shift record "dtype"
  have shapeAgain := Record.field?_shifted below.shift record "shape"
  have order : orderField (record.shifted below.shift) =
      (orderField record).shifted below.shift := by
    unfold orderField
    rw [Record.field?_shifted]
    cases record.field? "order" <;> rfl
  cases hasType : record.field? "dtype" with
  | none =>
      rw [hasType] at typeAgain
      rw [readInline_of_header (.inl hasType),
        readInline_of_header (.inl typeAgain)]
      exact headed
  | some type =>
  cases hasShape : record.field? "shape" with
  | none =>
      rw [hasShape] at shapeAgain
      rw [readInline_of_header (.inr hasShape),
        readInline_of_header (.inr shapeAgain)]
      exact headed
  | some shape =>
      rw [hasType] at typeAgain
      rw [hasShape] at shapeAgain
      rw [readInline_of_fields hasType hasShape,
        readInline_of_fields typeAgain shapeAgain, order]
      refine .bind (mirrors_payloadDtype below type) fun element => ?_
      refine .tell_bind fun place other => ?_
      refine .bind (mirrors_checkShape below shape place other)
        fun extents => ?_
      exact .bind (mirrors_orderFlag below _) fun firstFastest =>
        mirrors_readAnnounced below followed record mirrors _

omit followed mirrors

theorem mirrors_readSibling (siblings? : Option Siblings) :
    Mirrors related below (Value.shifted below.shift)
      (readSibling names record siblings?)
      (readSibling names (record.shifted below.shift) siblings?) := by
  unfold readSibling
  rw [Record.field_shifted, Value.text?_shifted]
  cases (record.field "filename").text? with
  | none => exact .throw _ _
  | some fileName =>
  cases siblings? with
  | none => exact .throw _ _
  | some siblings =>
      dsimp only
      cases siblings fileName with
      | error failure => exact .throw _ _
      | ok reader =>
          exact .bind
            (.onReader reader (mirrors_readHeaded below Reader.isFollowed_eq))
            (mirrors_allocArray below)

end Records

end Payload

namespace Execution

open Decoding

/-- The same array takes the place of a placeholder. -/
theorem mirrors_materialize {related : Reader → Reader → Prop}
    (followed : Reader.IsFollowed related) (below : Heap)
    {options : Options} {nested inner : Decoding Value}
    (mirrors : Decoding.Mirrors related below (Value.shifted below.shift)
      nested inner)
    (layout : ArrayLayout) (record : Record) :
    Decoding.Mirrors related below (Value.shifted below.shift)
      (materialize options nested layout record)
      (materialize options inner layout (record.shifted below.shift)) := by
  cases layout with
  | inline => exact Payload.mirrors_readInline below followed record mirrors
  | sibling => exact Payload.mirrors_readSibling below record options.siblings?

end Execution

end PickleGraph
