import PickleGraph.Proofs.Framing.Stream
import PickleGraph.Proofs.Framing.Upkeep
import PickleGraph.Proofs.Names.Payload

/-!
# The opcodes of a stream, one by one

A stream is listed item by item, an item being an opcode with its argument and
its payload. Where the payload is a pickle of its own, the items of this pickle
may stand in its place, and so on with the pickles inside that one.
-/

namespace PickleGraph

open Actions

/-- The array that a placeholder stands for is read from a pickle behind it. -/
def Payload.awaitsPickle (record : Record) (source : Source) : Bool :=
  match record.strategy, record.field? "dtype", record.field? "shape" with
  | .array _ .inline, some type, some shape =>
      match source.heap.payloadDtype type,
        orderFlag (orderField record) source with
      | .ok type, .ok _ _ =>
          type.hasObject && (shapeOf? source.heap shape).isSome
      | _, _ => false
  | _, _, _ => false

theorem Payload.announces_of_awaitsPickle {record : Record} {source : Source}
    (awaits : awaitsPickle record source = true) :
    (∃ name, record.strategy = .array name .inline) ∧
      ∃ header : Header, header.type.hasObject = true ∧
        Announces record source header := by
  unfold awaitsPickle at awaits
  split at awaits
  · next name type shape isArray hasType hasShape =>
      split at awaits
      · next found firstFastest after isType isOrder =>
          obtain ⟨holdsObjects, known⟩ := Bool.and_eq_true_iff.mp awaits
          obtain ⟨extents, isShape⟩ := Option.isSome_iff_exists.mp known
          have same := quiet_orderFlag (orderField record) source
          rw [isOrder] at same
          cases same
          exact ⟨⟨name, isArray⟩, ⟨found, extents, firstFastest⟩,
            holdsObjects, ⟨type, hasType, isType⟩,
            ⟨shape, hasShape, isShape⟩, isOrder⟩
      · cases awaits
  · cases awaits

namespace Execution

variable {options : Options} {nested : Decoding Value}
variable {machine before middle after last : Machine} {opcode : Opcode}
variable {result : Option Value} {value : Value}

/-! ## Items without frames -/

theorem code_injective : Function.Injective Opcode.code := by
  intro first second same
  have found := ofCode?_code first
  rw [same, ofCode?_code] at found
  exact (Option.some.inj found).symm

theorem faces_of_readOpcode {bytes : Bytes}
    (faces : before.source.reader.Faces bytes)
    (read : readOpcode before = .ok opcode middle) :
    ∃ more, bytes = opcode.code :: more ∧
      middle.source.reader.Faces more := by
  obtain ⟨data, source, decoded, known, rfl⟩ := readOpcode_eq_ok_iff.mp read
  obtain ⟨reader, handed, rfl⟩ := Decoding.reading_eq_ok_iff.mp decoded
  obtain ⟨more, bytes, short, moreFaces⟩ := faces.read_eq_ok handed
  cases data with
  | nil => cases known
  | cons code others =>
      have nothing : others = [] :=
        List.length_eq_zero_iff.mp (Nat.le_zero.mp (Nat.le_of_succ_le_succ short))
      subst nothing
      have isCode : code = opcode.code := code_of_ofCode? known
      subst isCode
      exact ⟨more, bytes, moreFaces⟩

/-- An executed item is its opcode and what is read then. -/
theorem exists_payload {item : Bytes}
    (nestedMoves : Moves Source.ReadOn nested)
    (faces : before.source.reader.Faces
      (item ++ after.source.reader.unread))
    (stepped : step options nested before = .ok result after) :
    ∃ opcode middle payload, item = opcode.code :: payload ∧
      readOpcode before = .ok opcode middle ∧
      perform options nested opcode middle = .ok result after ∧
      middle.source.reader.Faces
        (payload ++ after.source.reader.unread) := by
  rw [step_eq] at stepped
  obtain ⟨opcode, middle, read, performed⟩ := bind_eq_ok_iff.mp stepped
  obtain ⟨more, bytes, moreFaces⟩ := faces_of_readOpcode faces read
  have moved : middle.ReadOn (finalState
      (perform options nested opcode middle)) :=
    readOn_perform nestedMoves opcode middle
  rw [performed] at moved
  obtain ⟨payload, left⟩ := moved.unread
  have left : payload ++ after.source.reader.unread = more :=
    left.trans moreFaces.unread
  subst left
  exact ⟨opcode, middle, payload, List.append_cancel_right bytes, read,
    performed, moreFaces⟩

theorem faces_of_perform {bytes : Bytes}
    (faces : before.source.reader.Faces bytes) (noFrame : opcode ≠ .frame)
    (performed : perform options (nestedPickle options) opcode before =
      .ok result after) :
    after.source.reader.Faces after.source.reader.unread := by
  obtain ⟨more, moreFaces⟩ :=
    isBare_of_perform ⟨bytes, faces⟩ noFrame performed
  rw [moreFaces.unread]
  exact moreFaces

theorem faces_of_step {item : Bytes}
    (faces : before.source.reader.Faces (item ++ after.source.reader.unread))
    (noFrame : item.head? ≠ some Opcode.frame.code)
    (stepped : step options (nestedPickle options) before =
      .ok result after) :
    after.source.reader.Faces after.source.reader.unread := by
  obtain ⟨opcode, middle, payload, rfl, read, performed, middleFaces⟩ :=
    exists_payload (readOn_nestedPickle options) faces stepped
  refine faces_of_perform middleFaces ?_ performed
  rintro rfl
  exact noFrame rfl

/-! ## Pickles inside -/

/-- The machine is about to give a placeholder for an array of objects its state.
When it has done so, it is ready to read the pickle inside. -/
structure OpensInside (machine ready : Machine) (target : Address × Record) :
    Prop where
  isOpened : ∃ middle, readOpcode machine = .ok .build middle ∧
    applyToTop middle = .ok target ready
  isArray : ∃ name, target.2.strategy = .array name .inline
  isAnnounced : ∃ header : Payload.Header, header.type.hasObject = true ∧
    Payload.Announces target.2 ready.source header

namespace OpensInside

variable {ready : Machine} {target : Address × Record}

theorem reader_eq (opens : OpensInside machine ready target)
    (read : readOpcode machine = .ok .build middle) :
    ready.source.reader = middle.source.reader := by
  obtain ⟨other, readOther, applied⟩ := opens.isOpened
  obtain rfl : other = middle :=
    (EStateM.Result.ok.inj (readOther.symm.trans read)).2
  have stays := Stationary.applyToTop.source_reader other
  rw [applied] at stays
  exact stays

/-- The pickle inside has less to read than the machine before its opcode. -/
theorem size_lt (opens : OpensInside machine ready target) :
    (Machine.ofReader ready.source.reader ready.heap false).size <
      machine.size := by
  obtain ⟨middle, read, _⟩ := opens.isOpened
  show ready.source.reader.remaining + 0 < machine.source.reader.remaining
  rw [opens.reader_eq read]
  exact remaining_readOpcode read

theorem faces (opens : OpensInside machine ready target) {bytes : Bytes}
    (here : machine.source.reader.Faces bytes) :
    ready.source.reader.Faces ready.source.reader.unread := by
  obtain ⟨middle, read, _⟩ := opens.isOpened
  obtain ⟨more, _, middleFaces⟩ := faces_of_readOpcode here read
  rw [opens.reader_eq read, middleFaces.unread]
  exact middleFaces

/-- The pickle inside may have frames, but they are left with it. -/
theorem faces_of_step (opens : OpensInside machine ready target)
    {bytes : Bytes} (here : machine.source.reader.Faces bytes)
    (stepped : step options (nestedPickle options) machine =
      .ok result after) :
    after.source.reader.Faces after.source.reader.unread := by
  obtain ⟨middle, read, _⟩ := opens.isOpened
  obtain ⟨more, _, middleFaces⟩ := faces_of_readOpcode here read
  have performed : perform options (nestedPickle options) .build middle =
      .ok result after := (bind_of_eq_ok read).symm.trans stepped
  have noFrame : Opcode.build ≠ .frame := by decide
  exact faces_of_perform middleFaces noFrame performed

theorem materialize_eq (opens : OpensInside machine ready target) :
    materialize options nested .inline target.2 ready.source =
      Payload.readNested nested ready.source := by
  obtain ⟨header, holdsObjects, announces⟩ := opens.isAnnounced
  show Payload.readInline options.names target.2 nested ready.source = _
  rw [Payload.readInline_of_announces announces, Payload.readAnnounced,
    if_pos holdsObjects]

/-- Behind a step that has read a pickle inside there is what it stands for. -/
theorem exists_array (opens : OpensInside machine ready target)
    (stepped : step options nested machine = .ok result after) :
    ∃ found source array heap, nested ready.source = .ok found source ∧
      Payload.StandsFor source.heap found array heap := by
  obtain ⟨middle, read, applied⟩ := opens.isOpened
  obtain ⟨name, strategy⟩ := opens.isArray
  have performed : perform options nested .build middle =
      .ok result after := (bind_of_eq_ok read).symm.trans stepped
  obtain ⟨instruction, _, last, argued, executed, _⟩ :=
    perform_eq_ok_iff.mp performed
  cases argued
  obtain ⟨_, _, given, _⟩ := bind_eq_ok_iff.mp executed
  have filled : fillPlaceholder options nested target.1 target.2 ready = _ :=
    (bind_of_eq_ok applied).symm.trans
      ((congrFun (giveState_eq options nested) middle).symm.trans given)
  unfold fillPlaceholder at filled
  rw [strategy] at filled
  obtain ⟨array, _, placed, _⟩ := bind_eq_ok_iff.mp filled
  obtain ⟨further, materialized, _⟩ := decoding_eq_ok_iff.mp placed
  rw [opens.materialize_eq] at materialized
  obtain ⟨found, source, decoded, _, standsFor⟩ :=
    Payload.standsFor_of_readNested materialized
  exact ⟨found, source, array, further.heap, decoded, standsFor⟩

/-- Such a step runs a machine of its own to the end of the pickle inside. -/
theorem exists_run (opens : OpensInside machine ready target)
    (stepped : step options (nestedPickle options) machine =
      .ok result after) :
    ∃ found within, runToEnd (nestedOptions options)
      (Machine.ofReader ready.source.reader ready.heap false) =
        .ok found within := by
  obtain ⟨found, _, _, _, decoded, _⟩ := opens.exists_array stepped
  obtain ⟨within, finished, _⟩ := inside_eq_ok_iff.mp decoded
  exact ⟨found, within, finished⟩

end OpensInside

/-- The machine of the pickle that the next opcode of a machine reads, if it reads
one. -/
def machineInside? (machine : Machine) : Option Machine :=
  match readOpcode machine with
  | .ok .build middle =>
      match applyToTop middle with
      | .ok target ready =>
          if Payload.awaitsPickle target.2 ready.source then
            some (Machine.ofReader ready.source.reader ready.heap false)
          else
            none
      | .error _ _ => none
  | _ => none

theorem exists_opensInside {inner : Machine}
    (found : machineInside? machine = some inner) :
    ∃ ready target, OpensInside machine ready target ∧
      inner = Machine.ofReader ready.source.reader ready.heap false := by
  unfold machineInside? at found
  split at found
  · next middle read =>
      split at found
      · next target ready applied =>
          split at found
          · next awaits =>
              obtain ⟨isArray, isAnnounced⟩ :=
                Payload.announces_of_awaitsPickle awaits
              exact ⟨ready, target, ⟨⟨middle, read, applied⟩, isArray,
                isAnnounced⟩, (Option.some.inj found).symm⟩
          · cases found
      · cases found
  · cases found

/-! ## Listings -/

/-- The items that a machine executes up to the end of the pickle. An array of
objects may be listed as one item, together with the pickle that it is read from,
or as its opcode and the items of this pickle. -/
inductive Listing :
    Options → Machine → List Bytes → Value → Machine → Prop
  | last {options : Options} {machine after : Machine} {item : Bytes}
      {value : Value} :
      step options (nestedPickle options) machine = .ok (some value) after →
      machine.source.reader.unread = item ++ after.source.reader.unread →
      Listing options machine [item] value after
  | next {options : Options} {machine after last : Machine} {item : Bytes}
      {items : List Bytes} {value : Value} :
      step options (nestedPickle options) machine = .ok none after →
      machine.source.reader.unread = item ++ after.source.reader.unread →
      Listing options after items value last →
      Listing options machine (item :: items) value last
  | inside {options : Options} {machine ready within after last : Machine}
      {target : Address × Record} {inner items : List Bytes}
      {found value : Value} :
      OpensInside machine ready target →
      Listing (nestedOptions options)
        (Machine.ofReader ready.source.reader ready.heap false) inner found
        within →
      step options (nestedPickle options) machine = .ok none after →
      Listing options after items value last →
      Listing options machine ([Opcode.build.code] :: inner ++ items) value
        last

theorem Listing.runToEnd_eq {items : List Bytes}
    (listing : Listing options machine items value last) :
    runToEnd options machine = .ok value last := by
  induction listing with
  | last stepped _ => exact runToEnd_of_finish stepped
  | next stepped _ _ inductionHypothesis =>
      exact (runToEnd_of_step stepped).trans inductionHypothesis
  | inside _ _ stepped _ _ inductionHypothesis =>
      exact (runToEnd_of_step stepped).trans inductionHypothesis

/-- The items that are executed one after the other are a listing. -/
theorem listing_itemsFrom {steps : Nat} (enough : machine.size < steps)
    (success : runToEnd options machine = .ok value last) :
    Listing options machine (itemsFrom options steps machine) value last := by
  induction steps generalizing machine with
  | zero => exact absurd enough (Nat.not_lt_zero _)
  | succ steps inductionHypothesis =>
      obtain ⟨result, after, stepped, bytes, smaller, rest⟩ :=
        step_of_runToEnd success
      unfold itemsFrom
      rw [stepped]
      cases result with
      | some final =>
          cases rest
          exact .last stepped bytes
      | none =>
          exact .next stepped bytes (inductionHypothesis (by omega) rest)

/-- The bytes of every opcode that is executed, also in the pickles inside. -/
def allItemsFrom : (steps : Nat) → Options → Machine → List Bytes
  | 0, _, _ => []
  | steps + 1, options, machine =>
      match step options (nestedPickle options) machine with
      | .ok none after =>
          match machineInside? machine with
          | some inner =>
              [Opcode.build.code] ::
                allItemsFrom steps (nestedOptions options) inner ++
                allItemsFrom steps options after
          | none =>
              bytesBetween machine after :: allItemsFrom steps options after
      | .ok (some _) after => [bytesBetween machine after]
      | .error _ _ => []

theorem listing_allItemsFrom {steps : Nat} (enough : machine.size < steps)
    (success : runToEnd options machine = .ok value last) :
    Listing options machine (allItemsFrom steps options machine) value
      last := by
  induction steps generalizing options machine value last with
  | zero => exact absurd enough (Nat.not_lt_zero _)
  | succ steps inductionHypothesis =>
      obtain ⟨result, after, stepped, bytes, smaller, rest⟩ :=
        step_of_runToEnd success
      unfold allItemsFrom
      rw [stepped]
      cases result with
      | some final =>
          cases rest
          exact .last stepped bytes
      | none =>
          have later := inductionHypothesis (by omega) rest
          dsimp only
          split
          · next inner found =>
              obtain ⟨ready, target, opens, rfl⟩ := exists_opensInside found
              have innerSmaller := opens.size_lt
              obtain ⟨value, within, finished⟩ := opens.exists_run stepped
              exact .inside opens
                (inductionHypothesis (by omega) finished) stepped later
          · exact .next stepped bytes later

end Execution

/-- The opcodes of a stream that are executed before the pickle ends, each with
its argument and its payload, and in the place of every pickle inside its
opcodes. -/
def Options.allItems (options : Options) (content : Bytes) : List Bytes :=
  Execution.allItemsFrom (content.length + 1) options
    (Execution.startOn content)

/-- The stream is decoded by these items. -/
def Options.Lists (options : Options) (content : Bytes)
    (items : List Bytes) : Prop :=
  ∃ value last,
    Execution.Listing options (Execution.startOn content) items value last

end PickleGraph
