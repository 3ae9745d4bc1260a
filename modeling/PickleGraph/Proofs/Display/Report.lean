import PickleGraph.Display.Report
import PickleGraph.Proofs.Display.Line

/-!
# How deep a report goes

A report shows records in the fields of others. What is shown of a record does
not depend on how the records of the heap refer to each other: it is an outline
of finitely many levels, also where the records form a cycle. Each level takes two
steps of the indentation, which is what the depth of a report is compared with.
-/

namespace PickleGraph.Display

open Printing Actions

/-! ## Outlines -/

/-- What is shown of a value: itself on one line, or a record with its fields. -/
inductive Outline
  | summary (value : Value)
  | block (record : Record) (fields : List (Value × Outline))

/-- A record with so many levels of records in its fields expanded. -/
def outline (heap : Heap) : (levels : Nat) → Record → Outline
  | 0, record =>
      .block record (record.fields.map fun (key, field) =>
        (key, .summary field))
  | levels + 1, record =>
      .block record (record.fields.map fun (key, field) =>
        (key,
          match heap.record? field with
          | some (_, nested) => outline heap levels nested
          | none => .summary field))

namespace Outline

variable (colored : Bool) (heap : Heap)

/-- A field on one line, or its name above the block of its record. -/
def printField (below : Outline → Printing Unit) (indent : Nat)
    (field : Value × Outline) : Printing Unit :=
  match field.2 with
  | summary value => fieldLine colored heap indent field.1 value
  | block record fields => do
      fieldHead colored heap indent field.1
      below (.block record fields)

/-- The lines of an outline, whose blocks stand two steps further in than the
blocks around them. There is room for so many blocks inside each other. -/
def print : (room indent : Nat) → Outline → Printing Unit
  | _, _, summary value => do
      line [← text (Display.value colored heap true 0 value)]
  | 0, _, block _ _ => throw (.refused .unimplemented)
  | room + 1, indent, block record fields => do
      recordHead colored heap indent record
      fields.forM
        (printField colored heap (print room (indent + 2)) (indent + 1))

/-- The part of an outline that is found through the fields at these places. -/
def at? : Outline → List Nat → Option Outline
  | shown, [] => some shown
  | summary _, _ :: _ => none
  | block _ fields, place :: path =>
      fields[place]?.bind fun (_, shown) => shown.at? path

end Outline

/-- The record that is reached through the fields at these places. -/
def recordAt? (heap : Heap) : Record → List Nat → Option Record
  | record, [] => some record
  | record, place :: path =>
      record.fields[place]?.bind fun (_, field) =>
        (heap.record? field).bind fun (_, nested) => recordAt? heap nested path

variable {colored : Bool} {heap : Heap} {record : Record}

/-! ## Levels of a report -/

theorem exists_outline (heap : Heap) (levels : Nat) (record : Record) :
    ∃ fields, outline heap levels record = .block record fields ∧
      fields.map (·.1) = record.fields.map (·.1) := by
  cases levels with
  | zero => exact ⟨_, rfl, by simp⟩
  | succ levels => exact ⟨_, rfl, by simp⟩

theorem recordWithin_eq {depth nesting room : Nat} (levels count : Nat)
    (counts : depth / 2 = nesting + count)
    (enough : levels = room ∨ count < levels ∧ count < room) :
    recordWithin colored heap depth levels (2 * nesting) record =
      (outline heap count record).print colored heap room (2 * nesting) := by
  induction levels generalizing room nesting count record with
  | zero =>
      have noRoom : room = 0 := by omega
      obtain ⟨fields, same, _⟩ := exists_outline heap count record
      rw [same, noRoom]
      rfl
  | succ levels inductionHypothesis =>
      obtain ⟨room, rfl⟩ : ∃ further, room = further + 1 :=
        Nat.exists_eq_succ_of_ne_zero (by omega)
      cases count with
      | zero =>
          have deep : ¬ ((2 * nesting : Nat) : Int) + 1 < depth := by omega
          simp only [recordWithin, deep, if_false, outline, Outline.print,
            List.forM_eq_forM, List.forM_map]
          congr
          funext _
          congr
          funext ⟨key, field⟩
          cases heap.record? field <;> rfl
      | succ count =>
          have shallow : ((2 * nesting : Nat) : Int) + 1 < depth := by omega
          simp only [recordWithin, shallow, if_true, outline, Outline.print,
            List.forM_eq_forM, List.forM_map]
          congr
          funext _
          congr
          funext ⟨key, field⟩
          cases heap.record? field with
          | none => rfl
          | some found =>
              obtain ⟨address, nested⟩ := found
              have below : recordWithin colored heap depth levels
                  (2 * (nesting + 1)) nested =
                    (outline heap count nested).print colored heap room
                      (2 * (nesting + 1)) :=
                inductionHypothesis count (by omega) (by omega)
              obtain ⟨fields, isBlock, _⟩ := exists_outline heap count nested
              dsimp only
              rw [isBlock] at below ⊢
              exact congrArg
                (fun shown => fieldHead colored heap _ key >>= fun _ => shown)
                below

/-- A report to a depth is the outline with half as many levels. -/
theorem record_eq (colored : Bool) (heap : Heap) (depth : Nat)
    (record : Record) :
    Display.record colored heap depth record =
      (outline heap (depth / 2) record).print colored heap
        (maxRecordDepth + 1) 0 := by
  unfold Display.record
  rw [Int.toNat_natCast]
  apply recordWithin_eq _ _ (Nat.zero_add (depth / 2)).symm
  unfold maxRecordDepth
  omega

/-! ## Records of a report -/

/-- A record is shown with its own fields down to the last level, and on one
line below it. -/
theorem at?_outline {nested : Record} {path : List Nat} (levels : Nat)
    (reached : recordAt? heap record path = some nested) :
    (path.length ≤ levels →
      (outline heap levels record).at? path =
        some (outline heap (levels - path.length) nested)) ∧
    (path.length = levels + 1 →
      ∃ field address, heap.record? field = some (address, nested) ∧
        (outline heap levels record).at? path = some (.summary field)) ∧
    (levels + 1 < path.length →
      (outline heap levels record).at? path = none) := by
  induction path generalizing levels record with
  | nil =>
      cases reached
      refine ⟨fun _ => rfl, ?_, ?_⟩
      · intro same
        cases same
      · intro long
        cases long
  | cons place path inductionHypothesis =>
      obtain ⟨⟨key, field⟩, here, further⟩ :=
        Option.bind_eq_some_iff.mp reached
      obtain ⟨⟨address, inner⟩, isRecord, further⟩ :=
        Option.bind_eq_some_iff.mp further
      cases levels with
      | zero =>
          have shown : (outline heap 0 record).at? (place :: path) =
              (Outline.summary field).at? path := by
            simp [outline, Outline.at?, here]
          rw [shown]
          refine ⟨nofun, ?_, ?_⟩
          · intro same
            have ended : path = [] :=
              List.eq_nil_of_length_eq_zero (Nat.succ.inj same)
            rw [ended] at further ⊢
            cases further
            exact ⟨field, address, isRecord, rfl⟩
          · intro long
            cases path with
            | nil => cases long; contradiction
            | cons => rfl
      | succ levels =>
          have shown : (outline heap (levels + 1) record).at?
              (place :: path) = (outline heap levels inner).at? path := by
            simp [outline, Outline.at?, here, isRecord]
          obtain ⟨expanded, summarized, hidden⟩ :=
            inductionHypothesis levels further
          rw [shown, List.length_cons, Nat.add_sub_add_right]
          exact ⟨fun short => expanded (by omega),
            fun same => summarized (by omega),
            fun long => hidden (by omega)⟩

/-- A record that is not expanded is shown by its target and the number of its
fields. -/
theorem value_record {field : Value} {address : Address}
    (isRecord : heap.record? field = some (address, record)) (depth : Int) :
    Display.value colored heap true depth field =
      .ok (paint colored .yellow record.describe) := by
  unfold Heap.record? at isRecord
  split at isRecord
  · next place =>
      split at isRecord
      · next found here =>
          cases isRecord
          have isLeaf : inside heap (.object address) = .leaf := by
            simp only [inside, here]
          have style : leafStyle heap (.object address) = .yellow := by
            simp only [leafStyle, here]
          have described : heap.describe (.object address) =
              record.describe := by
            simp only [Heap.describe, Value.describe, Heap.describeObject,
              here]
          have shown : leafText heap (.object address) =
              .ok record.describe := by
            rcases leafText_eq heap (.object address) with
              ⟨number, isNumber, _⟩ | shown
            · cases isNumber
            · rw [shown]
              simp only [leafForm, isDescribed, here, style, described]
              rfl
          rw [value_stripped, bareValue_eq, isLeaf]
          dsimp only
          rw [shown, style]
          rfl
      · cases isRecord
  · cases isRecord

/-! ## How a report ends -/

/-- The action fails only where a value is refused. -/
abbrev OnlyRefuses {α : Type} (action : Printing α) : Prop :=
  Abides (fun _ => True) (fun failure _ => failure = .refused .badValue)
    action

theorem onlyRefuses_line (parts : List Text) : OnlyRefuses (line parts) :=
  .change fun _ here => here

theorem onlyRefuses_text {shown : Except Refusal Text}
    (refused : ∀ refusal, shown = .error refusal → refusal = .badValue) :
    OnlyRefuses (text shown) := by
  cases shown with
  | ok text => exact .pure fun _ here => here
  | error refusal =>
      refine .throw fun _ _ => ?_
      rw [refused refusal rfl]

theorem onlyRefuses_value (field : Value) :
    OnlyRefuses (text (Display.value colored heap true 0 field)) :=
  onlyRefuses_text fun _ refused => (value_eq_error refused).1

theorem onlyRefuses_wording (key : Value) :
    OnlyRefuses (text (heap.wording key)) := by
  refine onlyRefuses_text fun refusal refused => ?_
  unfold Heap.wording Heap.quote at refused
  split at refused
  · cases refused
  · split at refused <;> cases refused
    rfl

theorem onlyRefuses_fieldLine (indent : Nat) (key field : Value) :
    OnlyRefuses (fieldLine colored heap indent key field) :=
  (onlyRefuses_wording key).bind fun _ =>
    (onlyRefuses_value field).bind fun _ => onlyRefuses_line _

theorem onlyRefuses_fieldHead (indent : Nat) (key : Value) :
    OnlyRefuses (fieldHead colored heap indent key) :=
  (onlyRefuses_wording key).bind fun _ => onlyRefuses_line _

theorem onlyRefuses_recordHead (indent : Nat) (record : Record) :
    OnlyRefuses (recordHead colored heap indent record) := by
  have args : OnlyRefuses
      (text (items colored heap 0 (.tuple record.args))) := by
    refine onlyRefuses_text fun refusal refused => ?_
    obtain ⟨item, _, failed⟩ := exists_of_enclosed_error refused
    exact (valueWithin_eq_error failed).1
  unfold recordHead
  refine (onlyRefuses_line _).bind fun _ => ?_
  split
  · exact args.bind fun _ => onlyRefuses_line _
  · exact .pure fun _ here => here

theorem onlyRefuses_printField {below : Outline → Printing Unit}
    {shown : Outline} (inner : OnlyRefuses (below shown)) (indent : Nat)
    (key : Value) :
    OnlyRefuses (Outline.printField colored heap below indent
      (key, shown)) := by
  cases shown with
  | summary value => exact onlyRefuses_fieldLine indent key value
  | block record fields =>
      exact (onlyRefuses_fieldHead indent key).bind fun _ => inner

/-- Where there is room for all levels, nothing but a value is refused. -/
theorem onlyRefuses_print {levels room : Nat} (indent : Nat)
    (enough : levels < room) :
    OnlyRefuses
      ((outline heap levels record).print colored heap room indent) := by
  have onLine (room indent : Nat) (value : Value) : OnlyRefuses
      (Outline.print colored heap room indent (.summary value)) := by
    unfold Outline.print
    exact (onlyRefuses_value value).bind fun _ => onlyRefuses_line _
  obtain ⟨room, rfl⟩ : ∃ further, room = further + 1 :=
    Nat.exists_eq_succ_of_ne_zero (by omega)
  induction levels generalizing room indent record with
  | zero =>
      refine (onlyRefuses_recordHead indent record).bind fun _ =>
        .forM fun field member => ?_
      obtain ⟨⟨key, value⟩, _, rfl⟩ := List.mem_map.mp member
      exact onlyRefuses_printField (onLine room (indent + 2) value) _ key
  | succ levels inductionHypothesis =>
      refine (onlyRefuses_recordHead indent record).bind fun _ =>
        .forM fun field member => ?_
      obtain ⟨⟨key, value⟩, _, rfl⟩ := List.mem_map.mp member
      refine onlyRefuses_printField ?_ _ key
      split
      · next nested _ =>
          obtain ⟨room, rfl⟩ : ∃ further, room = further + 1 :=
            Nat.exists_eq_succ_of_ne_zero (by omega)
          exact inductionHypothesis _ room (by omega)
      · exact onLine room (indent + 2) value

/-! ## Reports of records -/

/-- A report to a depth shows an outline with half as many levels. A record that
is reached through fields is shown with its own fields exactly if there are no
more than half as many fields on the way as the depth says, on one line if there
is one field more, and not at all below that. A depth that is odd shows no more
than the one before it. As long as the depth leaves room for it, a report goes on
to its end or to a value that is refused. -/
theorem record_shows (colored : Bool) (heap : Heap) (record : Record)
    (depth : Nat) :
    Display.record colored heap depth record =
      (outline heap (depth / 2) record).print colored heap
        (maxRecordDepth + 1) 0 ∧
    (∀ path nested, recordAt? heap record path = some nested →
      (2 * path.length ≤ depth →
        ∃ fields, fields.map (·.1) = nested.fields.map (·.1) ∧
          (outline heap (depth / 2) record).at? path =
            some (.block nested fields)) ∧
      (path.length = depth / 2 + 1 →
        ∃ field, (outline heap (depth / 2) record).at? path =
            some (.summary field) ∧
          Display.value colored heap true 0 field =
            .ok (paint colored .yellow nested.describe)) ∧
      (depth / 2 + 1 < path.length →
        (outline heap (depth / 2) record).at? path = none)) ∧
    (depth % 2 = 1 → Display.record colored heap depth record =
      Display.record colored heap (depth - 1 : Nat) record) ∧
    (depth < 2 * (maxRecordDepth + 1) →
      OnlyRefuses (Display.record colored heap depth record)) := by
  refine ⟨record_eq colored heap depth record, ?_, ?_, ?_⟩
  · intro path nested reached
    obtain ⟨expanded, summarized, hidden⟩ :=
      at?_outline (depth / 2) reached
    refine ⟨fun short => ?_, fun same => ?_, hidden⟩
    · obtain ⟨fields, isBlock, keys⟩ :=
        exists_outline heap (depth / 2 - path.length) nested
      exact ⟨fields, keys, (expanded (by omega)).trans
        (congrArg some isBlock)⟩
    · obtain ⟨field, address, isRecord, shown⟩ := summarized same
      exact ⟨field, shown, value_record isRecord 0⟩
  · intro isOdd
    have half : (depth - 1) / 2 = depth / 2 := by omega
    rw [record_eq, record_eq, half]
  · intro small
    rw [record_eq]
    exact onlyRefuses_print 0 (by omega)

/-- What an action prints. -/
def printed (action : Printing Unit) : Text :=
  output (finalState (action []))

/-- A record of one type with one field. -/
def link (field : Value × Value) : Record :=
  ⟨.plain, "m", "n", "t", .generic "t" .plain, [], [field]⟩

/-- A record of a record of a record. -/
def chain : Heap :=
  ⟨#[.record (link (.str "c", .int 1)), .record (link (.str "b", .object 0))],
    0⟩

/-- The record two fields below the first one is shown on one line to depth three.
It is shown with its own field to depth four only. -/
theorem record_chain :
    recordAt? chain (link (.str "a", .object 1)) [0, 0] =
        some (link (.str "c", .int 1)) ∧
      [0, 0].length < 3 ∧
      printed (Display.record false chain 3 (link (.str "a", .object 1))) =
        Text.ofString ("t  (m.n)\n  a:\n    t  (m.n)\n" ++
          "      b: <t record (1 fields)>\n") ∧
      printed (Display.record false chain 4 (link (.str "a", .object 1))) =
        Text.ofString ("t  (m.n)\n  a:\n    t  (m.n)\n" ++
          "      b:\n        t  (m.n)\n          c: 1\n") ∧
      ¬ ∀ colored heap record (depth : Nat), 0 < depth →
        Display.record colored heap depth record =
          (outline heap (depth - 1) record).print colored heap
            (maxRecordDepth + 1) 0 := by
  have third : printed
      (Display.record false chain 3 (link (.str "a", .object 1))) =
        Text.ofString ("t  (m.n)\n  a:\n    t  (m.n)\n" ++
          "      b: <t record (1 fields)>\n") := by
    decide +kernel
  have fourth : printed
      (Display.record false chain 4 (link (.str "a", .object 1))) =
        Text.ofString ("t  (m.n)\n  a:\n    t  (m.n)\n" ++
          "      b:\n        t  (m.n)\n          c: 1\n") := by
    decide +kernel
  refine ⟨rfl, by decide, third, fourth, fun claimed => ?_⟩
  have alike : Display.record false chain 3 (link (.str "a", .object 1)) = _ :=
    claimed false chain _ (3 : Nat) (by decide)
  have same : Display.record false chain 4 (link (.str "a", .object 1)) = _ :=
    record_eq false chain (4 : Nat) _
  rw [same] at fourth
  have differ := third.symm.trans ((congrArg printed alike).trans fourth)
  revert differ
  decide

end PickleGraph.Display
