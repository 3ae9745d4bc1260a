import PickleGraph.Proofs.Construction.Confinement
import PickleGraph.Proofs.Decoding.Contract
import PickleGraph.Proofs.Decoding.Failure

/-!
# Decoding in a confined heap

What is read and built next to a stream, headers and payloads of arrays among
it, stays confined, and so does what is left behind by a failure.
-/

namespace PickleGraph

open Actions

namespace Decoding

variable {α β : Type} {start : Heap} {held : List Address}
variable {shown : α → List Address}

/-- The action keeps a confined heap confined, together with its result. -/
def Guards (start : Heap) (held : List Address) (shown : α → List Address)
    (action : Decoding α) : Prop :=
  Meets (fun source : Source => start.Confines held source.heap) action
    (fun result source => start.Confines (shown result ++ held) source.heap)
    (fun _ source => start.Confines held source.heap)

/-- A guarded action whose result mentions nothing. -/
abbrev GuardsBare (start : Heap) (held : List Address)
    (action : Decoding α) : Prop :=
  Guards start held (fun _ => []) action

namespace Guards

theorem pure {result : α} (member : shown result ⊆ held) :
    Guards start held shown (Pure.pure result) :=
  Meets.pure fun _ confines => confines.mono
    (List.append_subset.mpr ⟨member, List.Subset.refl _⟩)

theorem throw {failure : Failure} :
    Guards start held shown (MonadExcept.throw failure : Decoding α) :=
  Meets.throw fun _ confines => confines

/-- The second action has in hand what the first one gave. -/
theorem bind {other : β → List Address} {action : Decoding β}
    {next : β → Decoding α} (first : Guards start held other action)
    (second : ∀ value, Guards start (other value ++ held) shown (next value)) :
    Guards start held shown (action >>= next) := by
  refine Meets.bind first fun value => (second value).mono
    (fun _ here => here) (fun result source confines => ?_)
    (fun _ _ failed => failed.mono (List.subset_append_right _ _))
  exact confines.mono (by simp)

/-- An action that leaves the heap alone. -/
theorem of_still {action : Decoding α}
    (still : Moves (fun before after : Source => after.heap = before.heap)
      action) : GuardsBare start held action := by
  intro source confines
  have same := still source
  cases outcome : action source with
  | ok result after =>
      rw [outcome] at same
      exact EndsIn.ok (same ▸ confines)
  | error failure after =>
      rw [outcome] at same
      exact EndsIn.error (same ▸ confines)

theorem tell : GuardsBare start held tell? :=
  of_still fun _ => rfl

/-- From a heap that is known the action may have more in hand. -/
theorem here {heap : Heap} {further : List Address} {action : Decoding α}
    (guards : Guards start further shown action)
    (confines : start.Confines further heap) (member : held ⊆ further) :
    Meets (fun source : Source => source.heap = heap) action
      (fun result source =>
        start.Confines (shown result ++ held) source.heap)
      (fun _ source => start.Confines held source.heap) := by
  refine guards.mono (fun source same => same ▸ confines)
    (fun result source ends => ends.mono ?_)
    (fun _ _ failed => failed.mono member)
  exact List.append_subset.mpr ⟨List.subset_append_left _ _,
    List.Subset.trans member (List.subset_append_right _ _)⟩

/-- What follows a look at the heap starts in this heap. -/
theorem heap_bind {next : Heap → Decoding α}
    (rest : ∀ heap : Heap, start.Confines held heap →
      Meets (fun source : Source => source.heap = heap) (next heap)
        (fun result source =>
          start.Confines (shown result ++ held) source.heap)
        (fun _ source => start.Confines held source.heap)) :
    Guards start held shown (Decoding.heap >>= next) :=
  fun source confines => rest source.heap confines source rfl

theorem reading {action : Reading α} :
    GuardsBare start held (Decoding.reading action) := by
  refine of_still fun source => ?_
  unfold Decoding.reading
  cases action source.reader with
  | ok result reader => rfl
  | error failure reader => rfl

theorem query {answer : Heap → Except Failure α} :
    GuardsBare start held (Decoding.query answer) := by
  refine of_still fun source => ?_
  unfold Decoding.query
  cases answer source.heap with
  | ok result => rfl
  | error failure => rfl

theorem build {change : Heap → Except Failure (α × Heap)}
    (gives : ∀ heap : Heap, start.Gives held shown heap (change heap)) :
    Guards start held shown (Decoding.build change) := by
  intro source confines
  have given := gives source.heap confines
  unfold Decoding.build
  cases outcome : change source.heap with
  | ok made => exact given _ _ outcome
  | error failure => exact confines

theorem make {change : Heap → Except Refusal (α × Heap)}
    (gives : ∀ heap : Heap, start.Gives held shown heap (change heap)) :
    Guards start held shown (Decoding.make change) :=
  build fun heap => .mapError _ (gives heap)

theorem alloc {object : Object} (member : object.addresses ⊆ held) :
    Guards start held Value.addresses (Decoding.alloc object) := by
  rw [alloc_eq_build]
  exact build fun heap => .alloc member

theorem ask {answer : Heap → Except Refusal α} :
    GuardsBare start held (Decoding.ask answer) := by
  rw [ask_eq_query]
  exact query

theorem mapFailure {change : Failure → Failure} {action : Decoding α}
    (guards : Guards start held shown action) :
    Guards start held shown (Decoding.mapFailure change action) := by
  intro source confines
  have met := guards source confines
  unfold Decoding.mapFailure
  cases outcome : action source with
  | ok result after =>
      rw [outcome] at met
      exact met
  | error failure after =>
      rw [outcome] at met
      exact met

theorem onReader (reader : Reader) {action : Decoding α}
    (guards : Guards start held shown action) :
    Guards start held shown (Decoding.onReader reader action) := by
  intro source confines
  have met := guards { source with reader } confines
  unfold Decoding.onReader
  cases outcome : action { source with reader } with
  | ok result after =>
      rw [outcome] at met
      exact met
  | error failure after =>
      rw [outcome] at met
      exact met

/-- Values made one after the other, each of an item in hand. -/
theorem mapM {action : α → Decoding Value} {items : List α}
    (guards : ∀ item ∈ items, ∀ further, held ⊆ further →
      Guards start further Value.addresses (action item))
    {further : List Address} (member : held ⊆ further) :
    Guards start further Values.addresses (items.mapM action) := by
  induction items generalizing further with
  | nil => exact .pure (List.nil_subset _)
  | cons item rest inductionHypothesis =>
      rw [List.mapM_cons]
      have first := guards item List.mem_cons_self further member
      refine .bind first fun value => ?_
      have later := inductionHypothesis
        (fun other isItem => guards other (List.mem_cons_of_mem _ isItem))
        (List.Subset.trans member (List.subset_append_right value.addresses _))
      refine .bind later fun values => .pure ?_
      rw [Values.addresses_cons]
      grind

end Guards

end Decoding

/-! ## Arguments of opcodes -/

theorem Instruction.argues_confines (rules : TextRules) (opcode : Opcode)
    (start : Heap) (held : List Address) :
    Argues rules opcode (fun source => start.Confines held source.heap)
      (fun _ source => start.Confines held source.heap) where
  read count _ := by
    intro source confines
    have short := Decoding.meets_read count source trivial
    unfold Decoding.read Decoding.reading at short ⊢
    cases outcome : Reader.read count source.reader with
    | ok data reader =>
        rw [outcome] at short
        exact ⟨short, confines⟩
    | error failure reader => exact confines
  readLine := by
    intro source confines
    unfold Decoding.readLine Decoding.reading
    cases outcome : source.reader.readLine with
    | ok data reader => exact confines
    | error failure reader => exact confines
  decode _ _ _ confines _ _ := confines
  malformed _ _ _ confines := confines
  unsupported _ _ confines := confines

/-! ## Payloads -/

namespace Payload

open Decoding

variable {start : Heap} {held : List Address} {names : CharacterNames}

theorem guards_readExact (count : Nat) :
    GuardsBare start held (readExact count) := by
  refine .bind .tell fun offset => ?_
  refine .bind (.mapFailure .reading) fun data => ?_
  split
  · exact .throw
  · exact .pure (List.nil_subset _)

theorem guards_literalValue (offset : Option Nat) (text : Text) :
    Guards start held Value.addresses (literalValue names offset text) := by
  unfold literalValue
  dsimp only
  split
  · exact .throw
  · exact .mapFailure (.make fun heap =>
      Literal.gives_evaluate _ held heap)

theorem guards_checkShape (value : Value) (offset : Option Nat) :
    GuardsBare start held (checkShape value offset) := by
  refine .bind (.of_still fun _ => rfl) fun heap => ?_
  split
  · exact .pure (List.nil_subset _)
  · exact .bind .ask fun _ => .throw

theorem guards_withTupleFields {value : Value}
    (member : value.addresses ⊆ held) :
    Guards start held Value.addresses (withTupleFields value) := by
  refine .heap_bind fun heap confines => ?_
  have unchanged : Guards start held Value.addresses
      (pure value : Decoding Value) :=
    .pure member
  split
  · next address =>
      rw [Value.addresses_object] at member
      split
      · next items here =>
          have exposed := confines.expose (member List.mem_cons_self)
          rw [here] at exposed
          refine Guards.here ?_ exposed (List.subset_append_right _ _)
          rw [Array.mapM_eq_mapM_toList, map_eq_pure_bind, bind_assoc]
          refine .bind (.mapM (fun item isItem further wider => ?_)
            (List.Subset.refl _)) fun fields => ?_
          · have inHand := Values.subset_of_mem isItem
            have inHeld := List.Subset.trans inHand
              (List.subset_append_left _ held)
            have iterated := List.Subset.trans inHeld wider
            refine .bind (.make fun heap => Heap.gives_iterate iterated)
              fun values => .pure ?_
            rw [Value.addresses_tuple]
            exact List.subset_append_left _ _
          · exact .alloc (List.subset_append_left _ _)
      · exact unchanged.here confines (List.Subset.refl _)
  · exact unchanged.here confines (List.Subset.refl _)

/-- A header mentions nothing. -/
theorem guards_headerOf {entries : List (Value × Value)}
    (member : Entries.addresses entries ⊆ held) (offset : Option Nat)
    (missing : Cause) :
    GuardsBare start held (headerOf entries offset missing) := by
  unfold headerOf
  dsimp only
  split
  · next description order shape isDescription _ _ =>
      have inEntries := Entries.subset_of_find? isDescription
      refine .bind (guards_checkShape shape offset) fun shape => ?_
      split
      · refine .bind
          (guards_withTupleFields (List.Subset.trans inEntries member))
          fun description => ?_
        exact .bind .query fun type => .pure (List.nil_subset _)
      · exact .bind .ask fun _ => .throw
  · exact .throw

theorem guards_readHeader : GuardsBare start held (readHeader names) := by
  refine .bind .tell fun offset => ?_
  refine .bind (guards_readExact _) fun found => ?_
  split
  · exact .throw
  · refine .bind (guards_readExact 2) fun version => ?_
    dsimp only
    split
    · exact .throw
    · refine .bind (guards_readExact _) fun length => ?_
      refine .bind (guards_readExact _) fun content => ?_
      split
      · exact .throw
      · refine .bind (guards_literalValue offset _) fun value => ?_
        refine .heap_bind fun heap confines => ?_
        split
        · next entries isMapping =>
            have opened := confines.entries (List.subset_append_left _ _)
              isMapping
            exact (guards_headerOf (List.subset_append_left _ _) _ _).here
              opened (List.subset_append_right _ _)
        · exact Guards.throw.here confines (List.Subset.refl _)

/-! ## Elements -/

theorem guards_readElements (header : Header) :
    Guards start held (fun array : NdArray => array.content.addresses)
      (readElements header) := by
  unfold readElements
  split
  · exact .bind .tell fun _ => .throw
  · dsimp only
    refine .bind (guards_readExact _) fun data => ?_
    intro source confines
    unfold Decoding.ask
    dsimp only
    split
    · next array made =>
        obtain ⟨line, isLine, reshaped⟩ := except_bind_eq_ok_iff.mp made
        have inLine := NdArray.addresses_reshape reshaped
        rw [NdArray.addresses_ofBuffer isLine] at inLine
        refine confines.mono (List.append_subset.mpr ⟨?_, ?_⟩)
        · exact List.Subset.trans inLine (List.nil_subset _)
        · exact List.Subset.refl _
    · exact confines

theorem guards_readHeaded :
    Guards start held (fun array : NdArray => array.content.addresses)
      (readHeaded names) :=
  .bind guards_readHeader guards_readElements

theorem guards_skipPadding : GuardsBare start held skipPadding := by
  refine .bind (guards_readExact 1) fun length => ?_
  split
  · split
    · exact .bind (guards_readExact _) fun _ => .pure (List.nil_subset _)
    · exact .pure (List.nil_subset _)
  · exact .pure (List.nil_subset _)

/-- An array that has been read becomes an object. -/
theorem guards_allocArray {action : Decoding NdArray}
    (guards : Guards start held
      (fun array : NdArray => array.content.addresses) action) :
    Guards start held Value.addresses (do allocArray (← action)) :=
  .bind guards fun _ => .alloc (List.subset_append_left _ _)

/-! ## Placeholders -/

section Nested

variable {nested : Decoding Value}
variable (guardsNested : ∀ held, Guards start held Value.addresses nested)
include guardsNested

theorem guards_readNested :
    Guards start held Value.addresses (readNested nested) := by
  refine .bind .tell fun offset => ?_
  have corrupts {action : Decoding Value} (change : Failure → Failure)
      (guards : Guards start held Value.addresses action) :
      Guards start held Value.addresses (mapFailure change action) :=
    .mapFailure guards
  refine .bind (corrupts (readNested.corrupt offset) ?_) fun value => ?_
  · refine .bind (guardsNested held) fun value => ?_
    have unchanged : Guards start (value.addresses ++ held) Value.addresses
        (pure value : Decoding Value) :=
      .pure (List.subset_append_left _ _)
    refine .heap_bind fun heap confines => ?_
    split
    · next record isRecord =>
        have opened := confines.record (List.subset_append_left _ _) isRecord
        split
        · have rebuilt : Guards start
              (record.addresses ++ (value.addresses ++ held)) Value.addresses
              (do allocArray (← build (·.arrayOfRecord record))) :=
            guards_allocArray (.build fun heap =>
              Heap.gives_arrayOfRecord (List.subset_append_left _ _))
          exact rebuilt.here opened (List.subset_append_right _ _)
        · exact unchanged.here confines (List.Subset.refl _)
    · exact unchanged.here confines (List.Subset.refl _)
  · refine .bind (.of_still fun _ => rfl) fun heap => ?_
    split
    · exact .pure (List.subset_append_left _ _)
    · exact .bind (.of_still fun _ => rfl) fun heap =>
        .bind .tell fun _ => .throw

omit guardsNested in
theorem guards_orderFlag (value : Value) :
    GuardsBare start held (orderFlag value) := by
  refine .bind .ask fun isFirst => ?_
  split
  · exact .pure (List.nil_subset _)
  · refine .bind .ask fun isLast => ?_
    split
    · exact .pure (List.nil_subset _)
    · exact .bind .ask fun _ => .bind .tell fun _ => .throw

theorem guards_readInline (record : Record) :
    Guards start held Value.addresses (readInline names record nested) := by
  unfold readInline
  split
  · refine .bind .query fun type => .bind .tell fun place => ?_
    refine .bind (guards_checkShape _ place) fun shape => ?_
    refine .bind (guards_orderFlag _) fun firstFastest => ?_
    split
    · exact guards_readNested guardsNested
    · split
      · exact guards_allocArray (guards_readElements _)
      · exact .bind guards_skipPadding fun _ =>
          guards_allocArray (guards_readElements _)
  · exact guards_allocArray guards_readHeaded

omit guardsNested in
theorem guards_readSibling (record : Record)
    (siblings? : Option Siblings) :
    Guards start held Value.addresses (readSibling names record siblings?) := by
  unfold readSibling
  split
  · exact .throw
  · split
    · exact .throw
    · split
      · exact guards_allocArray (.onReader _ guards_readHeaded)
      · exact .throw

theorem guards_materialize (options : Options) (layout : ArrayLayout)
    (record : Record) :
    Guards start held Value.addresses
      (Execution.materialize options nested layout record) := by
  cases layout with
  | inline => exact guards_readInline guardsNested record
  | sibling => exact guards_readSibling record options.siblings?

end Nested

end Payload

end PickleGraph
