import PickleGraph.Proofs.Machine.Unharmed
import PickleGraph.Proofs.Payload.Taken
import PickleGraph.Proofs.Registry.Governed
import PickleGraph.Proofs.Relocation.Value

/-!
# Arrays in the place of placeholders

A placeholder that gets its state is replaced by its array, on top of the stack
and wherever the memo holds it. Everything else that the machine can reach stays
as it was, a pickle inside has no part in it, and the stream goes on behind the
payload.
-/

namespace PickleGraph

open Actions

/-! ## Replacement -/

namespace Memo

variable {address : Address} {array value : Value}
variable {memo : List (Nat × Value)}

@[simp] theorem replacement_self (address : Address) (array : Value) :
    replacement address array (.object address) = array :=
  if_pos rfl

theorem replacement_of_ne (isOther : value ≠ .object address) :
    replacement address array value = value := by
  cases value with
  | object other => exact if_neg fun same => isOther (congrArg _ same)
  | _ => rfl

theorem replacement_ne (isOther : array ≠ .object address) (value : Value) :
    replacement address array value ≠ .object address := by
  by_cases isHere : value = .object address
  · rw [isHere, replacement_self]
    exact isOther
  · rw [replacement_of_ne isHere]
    exact isHere

theorem slots_replace (address : Address) (array : Value)
    (memo : List (Nat × Value)) :
    (replace address array memo).map Prod.fst = memo.map Prod.fst := by
  rw [replace_eq_map, List.map_map]
  rfl

theorem getElem?_replace {index slot : Nat}
    (held : memo[index]? = some (slot, value)) :
    (replace address array memo)[index]? =
      some (slot, replacement address array value) := by
  rw [replace_eq_map, List.getElem?_map, held]
  rfl

theorem ne_of_mem_replace (isOther : array ≠ .object address)
    {entry : Nat × Value} (member : entry ∈ replace address array memo) :
    entry.2 ≠ .object address := by
  rw [replace_eq_map] at member
  obtain ⟨earlier, _, rfl⟩ := List.mem_map.mp member
  exact replacement_ne isOther earlier.2

end Memo

namespace Execution

variable {options : Options} {nested : Decoding Value}
variable {machine opened after : Machine} {state array : Value}
variable {below : List Value} {address : Address} {record filled : Record}
variable {target : Text} {layout : ArrayLayout} {source : Source}

/-! ## Payloads -/

theorem givesArray_materialize (options : Options) (nested : Decoding Value)
    (layout : ArrayLayout) (record : Record) :
    Payload.GivesArray (materialize options nested layout record) := by
  cases layout with
  | inline => exact Payload.givesArray_readInline record nested
  | sibling => exact Payload.givesArray_readSibling record options.siblings?

theorem unharmed_materialize (options : Options) (layout : ArrayLayout)
    (record : Record) :
    Moves Source.Unharmed
      (materialize options (nestedPickle options) layout record) := by
  have parallel : Decoding.Parallel (nestedPickle options)
      (nestedPickle options) _ _ :=
    Payload.parallel_materialize options layout record
  exact parallel.moves Source.admits_unharmed (unharmed_nestedPickle options)

/-- The array in another file takes nothing from the stream. -/
theorem reader_of_sibling {before : Source}
    (success : materialize options nested .sibling record before =
      .ok array source) :
    source.reader = before.reader := by
  have read : Payload.readSibling options.names record options.siblings? before =
      .ok array source := success
  unfold Payload.readSibling at read
  cases isNamed : (record.field "filename").text? with
  | none =>
      rw [isNamed] at read
      cases read
  | some fileName =>
  cases isStored : options.siblings? with
  | none =>
      rw [isNamed, isStored] at read
      cases read
  | some siblings =>
      rw [isNamed, isStored] at read
      dsimp only at read
      cases isOpen : siblings fileName with
      | error failure =>
          rw [isOpen] at read
          cases read
      | ok reader =>
          rw [isOpen] at read
          obtain ⟨content, middle, apart, allocated⟩ := bind_eq_ok_iff.mp read
          obtain ⟨last, _, rfl⟩ := Decoding.onReader_eq_ok_iff.mp apart
          cases allocated
          rfl

/-! ## One step -/

/-- Two machines in the same place read the same opcode. -/
theorem readOpcode_of_source_eq {other : Machine} {opcode : Opcode}
    (success : readOpcode machine = .ok opcode opened)
    (same : other.source = machine.source) :
    readOpcode other =
      .ok opcode { other with
        source := opened.source
        offset := opened.offset } := by
  obtain ⟨data, source, read, known, rfl⟩ := readOpcode_eq_ok_iff.mp success
  refine readOpcode_eq_ok_iff.mpr ⟨data, source, same ▸ read, known, ?_⟩
  rw [same]

/-- Reading an opcode moves the reader, and all else is as it was. -/
theorem opened_eq {opcode : Opcode}
    (success : readOpcode machine = .ok opcode opened) :
    opened = { machine with
      source := ⟨opened.source.reader, machine.heap⟩
      offset := opened.offset } := by
  obtain ⟨data, source, read, known, rfl⟩ := readOpcode_eq_ok_iff.mp success
  obtain ⟨reader, _, rfl⟩ := Decoding.reading_eq_ok_iff.mp read
  rfl

/-- The source from which the array of a placeholder is read. -/
def payloadSource (machine opened : Machine) (address : Address)
    (filled : Record) : Source :=
  ⟨opened.source.reader, machine.heap.set address (.record filled)⟩

/-- A placeholder with its state gives way to the array that is read for it. -/
theorem step_build_of_materialize
    (isBuild : readOpcode machine = .ok .build opened)
    (stack : machine.stack = state :: .object address :: below)
    (isRecord : machine.heap.get address = .record record)
    (applied : record.applyState machine.heap state = .ok filled)
    (strategy : filled.strategy = .array target layout)
    (read : materialize options nested layout filled
      (payloadSource machine opened address filled) = .ok array source) :
    step options nested machine =
      .ok none ({ opened with
        source
        stack := array :: below
        memo := Memo.replace address array machine.memo }.record .build) := by
  have still := opened_eq isBuild
  have stackStill : opened.stack = state :: .object address :: below := by
    rw [still]
    exact stack
  have heapStill : opened.heap = machine.heap := by
    rw [still]
    rfl
  have given := applyToTop_of_eq stackStill (heapStill ▸ isRecord)
    (heapStill ▸ applied)
  rw [heapStill] at given
  let waiting : Machine :=
    { opened with
      source := payloadSource machine opened address filled
      stack := .object address :: below }
  have isTop : waiting.stack = .object address :: below := rfl
  have filledIn := fillPlaceholder_of_eq address strategy isTop read
  have built : giveState options nested opened = .ok () _ :=
    (congrFun (giveState_eq options nested) opened).trans
      ((bind_of_eq_ok given).trans filledIn)
  have memoStill : opened.memo = machine.memo := by
    rw [still]
  rw [step_eq, bind_of_eq_ok isBuild, ← memoStill]
  exact perform_eq_ok_iff.mpr
    ⟨.build, opened, _, rfl, bind_of_eq_ok built, rfl⟩

/-- A step that gives a placeholder its state reads an array. -/
theorem materialize_of_step_build
    (isBuild : readOpcode machine = .ok .build opened)
    (stack : machine.stack = state :: .object address :: below)
    (isRecord : machine.heap.get address = .record record)
    (strategy : record.strategy = .array target layout)
    (success : step options nested machine = .ok none after) :
    ∃ filled array source,
      record.applyState machine.heap state = .ok filled ∧
        filled.strategy = .array target layout ∧
        materialize options nested layout filled
          (payloadSource machine opened address filled) =
            .ok array source := by
  have still := opened_eq isBuild
  rw [step_eq, bind_of_eq_ok isBuild] at success
  obtain ⟨_, _, last, argued, executed, _⟩ := perform_eq_ok_iff.mp success
  cases argued
  obtain ⟨_, built, gave, _⟩ := bind_eq_ok_iff.mp executed
  rw [giveState_eq] at gave
  obtain ⟨⟨place, filled⟩, middle, given, filledIn⟩ := bind_eq_ok_iff.mp gave
  obtain ⟨top, rest, found, stackThere, isFound, applied, rfl⟩ :=
    applyToTop_eq_ok given
  rw [still] at stackThere isFound applied
  cases stack.symm.trans stackThere
  cases isRecord.symm.trans isFound
  have refills : record.Refills filled := Record.refills_applyState applied
  have isArray : filled.strategy = .array target layout := by
    rw [refills]
    exact strategy
  dsimp only at filledIn
  unfold fillPlaceholder at filledIn
  rw [isArray] at filledIn
  obtain ⟨array, _, read, _⟩ := bind_eq_ok_iff.mp filledIn
  obtain ⟨source, read, _⟩ := decoding_eq_ok_iff.mp read
  have heapStill : opened.heap = machine.heap := by
    rw [still]
    rfl
  rw [heapStill] at read
  exact ⟨filled, array, source, applied, isArray, read⟩

/-! ## What is replaced -/

/-- An array has taken the place of a placeholder on top of the stack and in the
memo, and everything else is as it was. -/
structure TakesPlace (machine : Machine) (address : Address)
    (below : List Value) (array : Value) (after : Machine) : Prop where
  isArray : (after.heap.array? array).isSome = true
  stack : after.stack = array :: below
  marks : after.marks = machine.marks
  slots : after.memo.map Prod.fst = machine.memo.map Prod.fst
  replaced : ∀ {index slot : Nat},
    machine.memo[index]? = some (slot, .object address) →
      after.memo[index]? = some (slot, array)
  kept : ∀ {index slot : Nat} {value : Value},
    machine.memo[index]? = some (slot, value) → value ≠ .object address →
      after.memo[index]? = some (slot, value)
  gone : ∀ entry ∈ after.memo, entry.2 ≠ .object address
  heap : Heap.Extends [address] machine.heap after.heap

theorem takesPlace_of_source {placed : Source}
    (isArray : (placed.heap.array? array).isSome = true)
    (isOther : array ≠ .object address)
    (heap : Heap.Extends [address] machine.heap placed.heap)
    (isSource : after.source = placed) (stack : after.stack = array :: below)
    (marks : after.marks = machine.marks)
    (memo : after.memo = Memo.replace address array machine.memo) :
    TakesPlace machine address below array after where
  isArray := by
    rw [Machine.heap, isSource]
    exact isArray
  stack := stack
  marks := marks
  slots := by
    rw [memo]
    exact Memo.slots_replace address array machine.memo
  replaced := by
    intro index slot held
    rw [memo, Memo.getElem?_replace held, Memo.replacement_self]
  kept := by
    intro index slot value held isKept
    rw [memo, Memo.getElem?_replace held, Memo.replacement_of_ne isKept]
  gone := by
    rw [memo]
    exact fun entry member => Memo.ne_of_mem_replace isOther member
  heap := by
    have isHeap : after.heap = placed.heap := congrArg Source.heap isSource
    rw [isHeap]
    exact heap

/-- The stream goes on behind the bytes: the next opcode is the one that follows
them. -/
structure GoesOnBehind (machine : Machine) (bytes : Bytes) (after : Machine) :
    Prop where
  passes : machine.source.Passes bytes after.source
  opcode : ∀ {opcode : Opcode} {more : Bytes},
    (∃ next : Machine, readOpcode after = .ok opcode next ∧
        next.source.reader.pending = more) ↔
      machine.source.reader.pending = bytes ++ opcode.code :: more

theorem goesOnBehind_of_passes {bytes : Bytes}
    (passes : machine.source.Passes bytes after.source) :
    GoesOnBehind machine bytes after where
  passes := passes
  opcode := by
    intro opcode more
    rw [passes, List.append_cancel_left_eq]
    constructor
    · rintro ⟨next, read, rfl⟩
      exact readOpcode_pending read
    · exact readOpcode_of_pending

/-- Where a placeholder has got its state, its array takes its place. The array
comes from the stream or from another file, and the machine has no part in it
but the place in the stream and the heap. -/
structure Materializes (options : Options) (machine opened : Machine)
    (state : Value) (address : Address) (below : List Value)
    (layout : ArrayLayout) (filled : Record) (array : Value)
    (after : Machine) : Prop where
  placeholder : after.heap.get address = .record filled
  takesPlace : TakesPlace machine address below array after
  inline : layout = .inline →
    ∃ payload, Payload.IsPayload options filled
        (payloadSource machine opened address filled) payload ∧
      GoesOnBehind opened payload after
  sibling : layout = .sibling → GoesOnBehind opened [] after
  elsewhere : ∀ (other : Machine) (others : List Value),
    other.source = machine.source →
    other.stack = state :: .object address :: others →
    ∃ last, step options (nestedPickle options) other = .ok none last ∧
      last.source = after.source ∧
      TakesPlace other address others array last

/-- A placeholder that gets its state is replaced by its array wherever the
machine can fetch it, and nothing else is touched: not the rest of the stack, of
the memo or of the marks, no other object, and no byte behind the payload. -/
theorem step_materializes
    (isBuild : readOpcode machine = .ok .build opened)
    (stack : machine.stack = state :: .object address :: below)
    (isRecord : machine.heap.get address = .record record)
    (strategy : record.strategy = .array target layout)
    (success : step options (nestedPickle options) machine =
      .ok none after) :
    ∃ filled array, record.applyState machine.heap state = .ok filled ∧
      Materializes options machine opened state address below layout filled
        array after := by
  obtain ⟨filled, array, source, applied, isPlaceholder, read⟩ :=
    materialize_of_step_build isBuild stack isRecord strategy success
  have isArray : (source.heap.array? array).isSome = true :=
    givesArray_materialize options _ layout filled _ _ _ read
  have unharmed : Heap.Extends []
      (payloadSource machine opened address filled).heap source.heap := by
    have moved := unharmed_materialize options layout filled
      (payloadSource machine opened address filled)
    rw [read] at moved
    exact moved
  have heap : Heap.Extends [address] machine.heap source.heap :=
    (Heap.Extends.set machine.heap address (.record filled)).trans unharmed
      fun _ member => absurd member List.not_mem_nil
  have inHeap : address < machine.heap.objects.size :=
    Heap.lt_size_of_get isRecord Object.noConfusion
  have placeholder : source.heap.get address = .record filled :=
    unharmed.get (Heap.get_set_self _ inHeap) Object.noConfusion
  have isOther : array ≠ .object address := by
    rintro rfl
    obtain ⟨content, isContent⟩ := Option.isSome_iff_exists.mp isArray
    obtain ⟨_, same, here⟩ := Heap.array?_eq_some_iff.mp isContent
    cases same
    cases placeholder.symm.trans here
  have stepped := step_build_of_materialize isBuild stack isRecord applied
    isPlaceholder read
  cases success.symm.trans stepped
  have still := opened_eq isBuild
  have marks : opened.marks = machine.marks := by
    rw [still]
  refine ⟨filled, array, applied, placeholder, ?_, ?_, ?_, ?_⟩
  · exact takesPlace_of_source isArray isOther heap rfl rfl marks rfl
  · rintro rfl
    obtain ⟨payload, isPayload, passes⟩ := Payload.readInline_passes read
    exact ⟨payload, isPayload, goesOnBehind_of_passes passes⟩
  · rintro rfl
    have unread := reader_of_sibling read
    exact goesOnBehind_of_passes (.nil unread)
  · intro other others same isTop
    have sameHeap : other.heap = machine.heap := congrArg Source.heap same
    have readAgain : materialize options (nestedPickle options) layout filled
        ⟨opened.source.reader, other.heap.set address (.record filled)⟩ =
          .ok array source := by
      rw [sameHeap]
      exact read
    have again := step_build_of_materialize
      (readOpcode_of_source_eq isBuild same) isTop (sameHeap ▸ isRecord)
      (sameHeap ▸ applied) isPlaceholder readAgain
    exact ⟨_, again, rfl, takesPlace_of_source isArray isOther
      (sameHeap ▸ heap) rfl rfl rfl rfl⟩

/-- A placeholder of a line of two bytes is about to get its state. The memo
holds it in two slots, and it is below the mark as well. -/
def heldTwice : Machine where
  source :=
    { reader := .unframer (.ofBytes [0x62, 7, 9, 0x2E]) 0 none
      heap :=
        { Heap.empty with
          objects := #[.record bareWrapper,
            .dict false
              [(.str (Text.ofString "dtype"), .str (Text.ofString "|u1")),
                (.str (Text.ofString "shape"), .tuple [.int 2])]] } }
  stack := [.object 1, .object 0, .int 5]
  marks := [[.object 0]]
  memo := [(0, .object 0), (3, .object 1), (7, .object 0)]
  protocol := 2
  offset := 0
  history? := none

/-- Whether a step has ended without the value of a pickle. -/
def goesOn : EStateM.Result Failure Machine (Option Value) → Bool
  | .ok none _ => true
  | _ => false

theorem exists_of_goesOn
    {outcome : EStateM.Result Failure Machine (Option Value)}
    (isGoing : goesOn outcome = true) :
    ∃ after, outcome = .ok none after := by
  unfold goesOn at isGoing
  split at isGoing
  · exact ⟨_, rfl⟩
  · cases isGoing

theorem step_materializes_heldTwice :
    ∃ opened after,
      readOpcode heldTwice = .ok .build opened ∧
        step .standard (nestedPickle .standard) heldTwice =
          .ok none after ∧
        ∃ filled array,
          bareWrapper.applyState heldTwice.heap (.object 1) =
              .ok filled ∧
            Materializes .standard heldTwice opened (.object 1) 0 [.int 5]
              .inline filled array after := by
  obtain ⟨opened, isBuild⟩ :
      ∃ opened, readOpcode heldTwice = .ok .build opened :=
    ⟨_, rfl⟩
  obtain ⟨after, success⟩ :
      ∃ after, step .standard (nestedPickle .standard) heldTwice =
        .ok none after :=
    exists_of_goesOn (by decide +kernel)
  exact ⟨opened, after, isBuild, success,
    step_materializes isBuild rfl rfl rfl success⟩

end Execution

end PickleGraph
