import PickleGraph.Proofs.Machine.Depth
import PickleGraph.Proofs.Machine.Effect
import PickleGraph.Proofs.Payload.Placeholder

/-!
# Passages over pickles inside

A placeholder for an array of objects is followed by a pickle of its own. If the
stretch before the last opcode of this pickle is a passage under the options for
pickles inside, then the whole of it is a passage of the outer pickle. If the
stretch breaks off with a defect, the payload is reported as corrupt.
-/

namespace PickleGraph

open Actions

namespace Execution

variable {options : Options}

/-! ## Stretches that break off -/

/-- From the contents the stretch of code leads to a defect of this kind. -/
def Breaks (options : Options) (code : Bytes) (before : Contents)
    (kind : FailureClass) : Prop :=
  ∀ (rest : Bytes) (machine : Machine),
    machine.Stands (code ++ rest) before →
      ∃ cause offset after,
        runToEnd options machine = .error (.defect cause offset) after ∧
          cause.failureClass = kind

theorem Breaks.append {code : Bytes} {before : Contents}
    {kind : FailureClass} (breaks : Breaks options code before kind)
    (more : Bytes) : Breaks options (code ++ more) before kind := by
  intro rest machine stands
  rw [List.append_assoc] at stands
  exact breaks _ machine stands

theorem Executes.breaks {code more : Bytes} {before middle : Contents}
    {kind : FailureClass} (first : Executes options code before middle)
    (second : Breaks options more middle kind) :
    Breaks options (code ++ more) before kind := by
  intro rest machine stands
  rw [List.append_assoc] at stands
  obtain ⟨next, nextStands, run⟩ := first _ machine stands
  rw [run]
  exact second rest next nextStands

/-- An opcode that fails with a defect breaks its pickle off. -/
theorem Breaks.of_perform {opcode : Opcode} {argument : Bytes}
    {before : Contents} {kind : FailureClass}
    (fails : ∀ rest middle, middle.Stands (argument ++ rest) before →
      ∃ cause offset after,
        perform options (nestedPickle options) opcode middle =
            .error (.defect cause offset) after ∧
          cause.failureClass = kind) :
    Breaks options (opcode.code :: argument) before kind := by
  intro rest machine stands
  obtain ⟨middle, middleStands, read⟩ := readOpcode_of_stands stands
  obtain ⟨cause, offset, after, failed, isKind⟩ :=
    fails rest middle middleStands
  rw [runToEnd_of_error read failed]
  cases offset with
  | none => exact ⟨cause, some after.offset, after, rfl, isKind⟩
  | some place => exact ⟨cause, some place, after, rfl, isKind⟩

theorem Breaks.decode {code : Bytes} {kind : FailureClass}
    (breaks : Breaks options code ⟨[], [], [], .empty⟩ kind)
    (rest : Bytes) :
    ∃ cause offset,
      options.decode (code ++ rest) = .error (.defect cause offset) ∧
        cause.failureClass = kind := by
  have stands : (startOn (code ++ rest)).Stands (code ++ rest)
      ⟨[], [], [], .empty⟩ :=
    ⟨⟨rfl, rfl, rfl⟩, rfl⟩
  obtain ⟨cause, offset, after, failed, isKind⟩ := breaks rest _ stands
  refine ⟨cause, offset, ?_, isKind⟩
  have loaded : Machine.load options
      (Machine.ofReader (.ofBytes (code ++ rest)) .empty false) =
        runToEnd options (startOn (code ++ rest)) :=
    load_eq options _
  rw [Options.decode, Options.decodeReader, loaded, failed]

/-! ## Pickles inside -/

variable {code rest : Bytes} {reader : Reader} {heap : Heap}

theorem stands_ofReader (faces : reader.Faces rest) :
    (Machine.ofReader reader heap false).Stands rest ⟨[], [], [], heap⟩ :=
  ⟨⟨rfl, faces⟩, rfl⟩

theorem nestedPickle_of_executes {value : Value} {memo : List (Nat × Value)}
    {after : Heap}
    (passage : Executes (nestedOptions options) code ⟨[], [], [], heap⟩
      ⟨[value], [], memo, after⟩)
    (faces : reader.Faces (code ++ Opcode.stop.code :: rest)) :
    ∃ further : Reader, further.Faces rest ∧
      nestedPickle options ⟨reader, heap⟩ = .ok value ⟨further, after⟩ := by
  obtain ⟨next, nextStands, run⟩ := passage _ _ (stands_ofReader faces)
  obtain ⟨last, finished, same, lastFaces⟩ :=
    runToEnd_stop (nestedOptions options) nextStands
  refine ⟨last.source.reader.beneath, lastFaces.beneath, ?_⟩
  unfold nestedPickle inside
  rw [run, finished]
  dsimp only
  rw [same]

theorem nestedPickle_of_breaks {kind : FailureClass}
    (breaks : Breaks (nestedOptions options) code ⟨[], [], [], heap⟩ kind)
    (faces : reader.Faces (code ++ rest)) :
    ∃ cause offset after,
      nestedPickle options ⟨reader, heap⟩ =
        .error (.defect cause offset) after := by
  obtain ⟨cause, offset, after, failed, _⟩ :=
    breaks rest _ (stands_ofReader faces)
  refine ⟨cause, offset, ⟨after.source.reader.beneath, after.heap⟩, ?_⟩
  unfold nestedPickle inside
  rw [failed]

end Execution

namespace Payload

variable {nested : Decoding Value} {source : Source}

/-- The value is a record of an array, which is rebuilt from it. -/
def Rebuilds (heap : Heap) (value : Value) (array : NdArray)
    (after : Heap) : Prop :=
  ∃ address record, heap.record? value = some (address, record) ∧
    record.kind = .ndarray ∧
    heap.arrayOfRecord record = .ok (array, after)

theorem readNested_of_rebuilds {value : Value} {middle : Source}
    {array : NdArray} {after : Heap}
    (decoded : nested source = .ok value middle)
    (rebuilds : Rebuilds middle.heap value array after) :
    readNested nested source =
      .ok (.object after.objects.size)
        ⟨middle.reader, (after.alloc (.array array)).2⟩ := by
  obtain ⟨address, record, isRecord, isArray, rebuilt⟩ := rebuilds
  have made : nestedValue nested source =
      .ok (.object after.objects.size)
        ⟨middle.reader, (after.alloc (.array array)).2⟩ := by
    unfold nestedValue
    rw [bind_of_eq_ok decoded, heap_bind]
    simp only [isRecord, isArray, if_true]
    exact bind_of_eq_ok
      (Decoding.build_eq_ok_iff.mpr ⟨after, rebuilt, rfl⟩)
  have isArray :
      ((after.alloc (.array array)).2.array?
        (.object after.objects.size)).isSome = true :=
    Option.isSome_of_mem (array?_alloc after array)
  rw [readNested_eq, bind_of_eq_ok (Decoding.mapFailure_eq_ok_iff.mpr made)]
  unfold acceptArray
  rw [heap_bind, if_pos isArray]
  rfl

theorem readNested_of_defect {cause : Cause} {offset : Option Nat}
    {after : Source}
    (failed : nested source = .error (.defect cause offset) after) :
    readNested nested source =
      .error (.defect (.nestedFailure cause offset) source.reader.tell?)
        after := by
  have unmade : nestedValue nested source =
      .error (.defect cause offset) after :=
    bind_of_eq_error failed
  rw [readNested_eq]
  refine bind_of_eq_error ?_
  unfold Decoding.mapFailure
  rw [unmade]
  rfl

end Payload

namespace Execution

variable {options : Options}

/-- In the heap the state makes the record a placeholder for an array of
objects. -/
structure AwaitsObjects (heap : Heap) (place : Address) (state : Value)
    (filled : Record) : Prop where
  isGiven : ∃ record, heap.get place = .record record ∧
    record.applyState heap state = .ok filled
  isArray : ∃ target, filled.strategy = .array target .inline
  isAnnounced : ∃ header : Payload.Header, header.type.hasObject = true ∧
    ∀ reader, Payload.Announces filled
      ⟨reader, heap.set place (.record filled)⟩ header

/-- Such a placeholder stands for what is read from a pickle inside. -/
theorem AwaitsObjects.materialize_eq {heap : Heap} {place : Address}
    {state : Value} {filled : Record}
    (awaits : AwaitsObjects heap place state filled)
    (options : Options) (nested : Decoding Value) (reader : Reader) :
    materialize options nested .inline filled
        ⟨reader, heap.set place (.record filled)⟩ =
      Payload.readNested nested
        ⟨reader, heap.set place (.record filled)⟩ := by
  obtain ⟨header, holdsObjects, announces⟩ := awaits.isAnnounced
  show Payload.readInline options.names filled nested _ = _
  rw [Payload.readInline_of_announces (announces reader),
    Payload.readAnnounced, if_pos holdsObjects]

variable {heap : Heap} {place : Address} {state : Value} {filled : Record}
variable {stack : List Value} {marks : List (List Value)}
variable {memo : List (Nat × Value)} {code : Bytes}

/-- The state is taken off the stack and given to the record. -/
theorem AwaitsObjects.applyToTop_eq
    (awaits : AwaitsObjects heap place state filled) {machine : Machine}
    (contents : machine.contents =
      ⟨state :: .object place :: stack, marks, memo, heap⟩) :
    applyToTop machine =
      .ok (place, filled) (machine.holding
        ⟨.object place :: stack, marks, memo,
          heap.set place (.record filled)⟩) := by
  obtain ⟨record, here, applied⟩ := awaits.isGiven
  obtain ⟨⟨reader, objects⟩, values, others, slots, protocol, offset,
    history⟩ := machine
  cases contents
  exact applyToTop_of_eq rfl here applied

/-- The array that the pickle inside gives takes the place of the state and of
the placeholder. -/
theorem executes_inside {value : Value} {slots : List (Nat × Value)}
    {middle after : Heap} {array : NdArray}
    (awaits : AwaitsObjects heap place state filled)
    (passage : Executes (nestedOptions options) code
      ⟨[], [], [], heap.set place (.record filled)⟩
      ⟨[value], [], slots, middle⟩)
    (rebuilds : Payload.Rebuilds middle value array after) :
    Executes options (Opcode.build.code :: (code ++ [Opcode.stop.code]))
      ⟨state :: .object place :: stack, marks, memo, heap⟩
      ⟨.object after.objects.size :: stack, marks,
        Memo.replace place (.object after.objects.size) memo,
        (after.alloc (.array array)).2⟩ := by
  intro rest machine stands
  rw [List.cons_append, List.append_assoc] at stands
  obtain ⟨first, ⟨faces, contents⟩, read⟩ := readOpcode_of_stands stands
  obtain ⟨target, isArray⟩ := awaits.isArray
  have given := awaits.applyToTop_eq contents
  obtain ⟨reader, restFaces, decoded⟩ :=
    nestedPickle_of_executes passage faces
  have materialized :=
    (awaits.materialize_eq options (nestedPickle options) _).trans
      (Payload.readNested_of_rebuilds decoded rebuilds)
  obtain ⟨last, lastStands, built⟩ : ∃ last : Machine,
      last.Stands rest
        ⟨.object after.objects.size :: stack, marks,
          Memo.replace place (.object after.objects.size) memo,
          (after.alloc (.array array)).2⟩ ∧
        giveState options (nestedPickle options) first = .ok () last := by
    refine ⟨_, ?_, (congrFun (giveState_eq options _) first).trans
      ((bind_of_eq_ok given).trans
        (fillPlaceholder_of_eq place isArray rfl materialized))⟩
    exact ⟨restFaces, rfl⟩
  have executed : execute options (nestedPickle options) .build first =
      .ok none last :=
    bind_of_eq_ok built
  have instructed : decoding (Instruction.ofOpcode options.rules .build)
      first = .ok .build first := rfl
  refine ⟨last.record .build, lastStands, runToEnd_of_step ?_⟩
  rw [step_eq, bind_of_eq_ok read, perform, bind_of_eq_ok instructed,
    bind_of_eq_ok executed]
  rfl

/-- What breaks the pickle inside off corrupts the payload. -/
theorem breaks_inside {kind : FailureClass}
    (awaits : AwaitsObjects heap place state filled)
    (breaks : Breaks (nestedOptions options) code
      ⟨[], [], [], heap.set place (.record filled)⟩ kind) :
    Breaks options (Opcode.build.code :: (code ++ [Opcode.stop.code]))
      ⟨state :: .object place :: stack, marks, memo, heap⟩
      .corruptPayload := by
  refine .of_perform fun rest first firstStands => ?_
  obtain ⟨faces, contents⟩ := firstStands
  rw [List.append_assoc] at faces
  obtain ⟨target, isArray⟩ := awaits.isArray
  have given := awaits.applyToTop_eq contents
  obtain ⟨cause, offset, after, failed⟩ := nestedPickle_of_breaks breaks faces
  have unmaterialized :=
    (awaits.materialize_eq options (nestedPickle options) _).trans
      (Payload.readNested_of_defect failed)
  have unfilled : fillPlaceholder options (nestedPickle options) place filled
      (first.holding ⟨.object place :: stack, marks, memo,
        heap.set place (.record filled)⟩) = _ :=
    fillPlaceholder_of_error place isArray unmaterialized
  have unbuilt : giveState options (nestedPickle options) first = _ :=
    (congrFun (giveState_eq options _) first).trans
      ((bind_of_eq_ok given).trans unfilled)
  have unexecuted : execute options (nestedPickle options) .build first = _ :=
    bind_of_eq_error unbuilt
  have instructed : decoding (Instruction.ofOpcode options.rules .build)
      first = .ok .build first := rfl
  exact ⟨.nestedFailure cause offset, first.source.reader.tell?, _,
    (bind_of_eq_ok instructed).trans (bind_of_eq_error unexecuted), rfl⟩

end Execution

end PickleGraph
