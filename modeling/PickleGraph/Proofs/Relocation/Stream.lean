import PickleGraph.Proofs.Heap.Confinement
import PickleGraph.Proofs.Machine.Depth
import PickleGraph.Proofs.Relocation.Machine
import PickleGraph.Proofs.Trace.Loads

/-!
# Pickles one behind the other

Pickles that are decoded alone are decoded one by one where their bytes stand in
one input, though the slots of earlier ones stay bound. The objects of each are
put behind those of the earlier ones, which no later pickle touches.
-/

namespace PickleGraph

open Actions

/-! ## Readers -/

namespace Reader

/-- The reader has taken so many bytes from below, where these are left. -/
inductive IsAt : (start : Nat) → (rest : Bytes) → Reader → Prop
  | unframer (start : Nat) (rest : Bytes) (offset : Nat)
      (frame : Option Frame) :
      IsAt start rest (.unframer (file rest offset none) start frame)

theorem isAt_ofBytes (content : Bytes) :
    IsAt 0 content (.unframer (ofBytes content) 0 none) :=
  .unframer 0 content 0 none

theorem IsAt.position {start : Nat} {rest : Bytes} {reader : Reader}
    (isAt : IsAt start rest reader) : reader.position = start := by
  cases isAt
  rfl

/-- A reader that has taken all bytes has none left. -/
theorem HasGiven.isAt {content given : Bytes} {reader : Reader}
    (hasGiven : reader.HasGiven content given)
    (whole : reader.position = content.length) :
    IsAt content.length [] reader := by
  have taken : ∃ taken rest, taken ++ rest = content ∧
      IsAt taken.length rest reader := by
    cases hasGiven with
    | @bare rest offset split =>
        exact ⟨given, rest, split, .unframer _ rest offset none⟩
    | @framed rest frame offset split tell =>
        refine ⟨given ++ frame.rest, rest, ?_, ?_⟩
        · rw [List.append_assoc]
          exact split
        · rw [List.length_append]
          exact .unframer _ rest offset (some frame)
  obtain ⟨taken, rest, split, isAt⟩ := taken
  have length := congrArg List.length split
  rw [List.length_append, ← whole, isAt.position] at length
  obtain rfl : rest = [] := List.eq_nil_of_length_eq_zero (by omega)
  rw [List.append_nil] at split
  exact split ▸ isAt

/-- A pickle at the start of what is left is read like alone. -/
theorem IsAt.above {start : Nat} {content more : Bytes} {reader : Reader}
    (isAt : IsAt start (content ++ more) reader) :
    Above (Precedes more) start (.unframer (ofBytes content) 0 none)
      reader.dropFrame := by
  cases isAt with
  | unframer offset frame => exact .unframers (.files content 0 offset) rfl

/-- Where all bytes of a pickle are taken, those behind it are left. -/
theorem Above.isAt {start taken : Nat} {more : Bytes} {reader other : Reader}
    (above : Above (Precedes more) start reader other)
    (isAt : IsAt taken [] reader) : IsAt (start + taken) more other := by
  cases isAt with
  | unframer offset frame =>
      cases above with
      | unframers precedes same =>
          cases precedes with
          | files rest offset place => exact .unframer _ more place _

end Reader

/-! ## Copies -/

namespace Heap

/-- The heap holds the objects of another one, with higher addresses and
marks. -/
def HoldsCopy (heap : Heap) (shift : Shift) (copied : Heap) : Prop :=
  ∀ address < copied.objects.size,
    heap.get? (address + shift.objects) =
      (copied.get? address).map (Object.shifted shift)

theorem holdsCopy_atop (heap below : Heap) :
    (heap.atop below).HoldsCopy below.shift heap :=
  fun address _ => get?_atop below heap address

/-- Objects that are put behind a copy leave it as it is. -/
theorem HoldsCopy.atop {shift : Shift} {copied below : Heap}
    (holds : below.HoldsCopy shift copied) (heap : Heap) :
    (heap.atop below).HoldsCopy shift copied := by
  intro address bound
  have found := holds address bound
  have copy : copied.get? address = some copied.objects[address] :=
    Array.getElem?_eq_getElem bound
  rw [copy, Option.map_some] at found
  have present : address + shift.objects < below.objects.size :=
    (Array.getElem?_eq_some_iff.mp found).choose
  rw [get?_atop_of_lt below heap present, found, copy, Option.map_some]

end Heap

namespace Execution

variable {options : Options} {machine last other : Machine}

/-! ## What is recorded -/

/-- A machine that records what it does has recorded the opcodes that it has
completed. -/
theorem Completes.history {opcodes : List Opcode}
    (completes : Completes options machine opcodes last)
    {moments : List Moment} (recorded : machine.history? = some moments) :
    ∃ more, last.history? = some (more ++ moments) ∧
      more.map Moment.opcode = opcodes.reverse := by
  induction completes generalizing moments with
  | nil machine => exact ⟨[], recorded, rfl⟩
  | @cons machine middle after last opcode opcodes read performed _
      inductionHypothesis =>
      have kept := history_readOpcode machine
      rw [read] at kept
      have sameHistory : middle.history? = machine.history? := kept
      have records : Records opcode middle
          (perform options (nestedPickle options) opcode middle) :=
        records_perform opcode middle
      rw [performed] at records
      cases records with
      | seen moment isOpcode _ seen =>
          rw [sameHistory, recorded] at seen
          obtain ⟨more, lastRecorded, same⟩ := inductionHypothesis seen
          refine ⟨more ++ [moment], ?_, ?_⟩
          · rw [lastRecorded, List.append_assoc]
            rfl
          · rw [List.map_append, same, List.reverse_cons, ← isOpcode]
            rfl

/-! ## Runs -/

section Followed

variable {related : Reader → Reader → Prop} {below : Heap}
variable (followed : Reader.IsFollowed related)
include followed

/-- Opcodes that do not number their slots by those before are completed on a memo
that is not fresh. -/
theorem Completes.mirrors {opcodes : List Opcode}
    (completes : Completes options machine opcodes last)
    (numberless : .memoize ∉ opcodes)
    (same : Machine.Mirrors related below false machine other) :
    ∃ further, Completes options other opcodes further ∧
      Machine.Mirrors related below false last further := by
  induction completes generalizing other with
  | nil machine => exact ⟨other, .nil other, same⟩
  | @cons machine middle after last opcode opcodes read performed _
      inductionHypothesis =>
      obtain ⟨first, rest⟩ := not_or.mp (mt List.mem_cons.mpr numberless)
      have reads : Mirrors related below false id _ _ :=
        mirrors_readOpcode followed
      have performs : Mirrors related below false
          (Option.map (Value.shifted below.shift))
          (perform options (nestedPickle options) opcode)
          (perform options (nestedPickle options) opcode) :=
        mirrors_perform followed
          (mirrors_nestedPickle followed.inFull options)
          fun isMemoize => absurd isMemoize.symm first
      obtain ⟨otherMiddle, readAgain, met⟩ :=
        reads machine other opcode middle same read
      obtain ⟨otherAfter, performedAgain, ends⟩ :=
        performs middle otherMiddle none after met performed
      obtain ⟨further, completesAgain, still⟩ :=
        inductionHypothesis rest ends
      exact ⟨further, .cons readAgain performedAgain completesAgain, still⟩

/-- A pickle is decoded alike over the heap below, if no opcode of it numbers its
slot by those before. -/
theorem runToEnd_mirrors {after : Machine} {value : Value}
    {moments : List Moment} (recorded : machine.history? = some moments)
    (finished : runToEnd options machine = .ok value after)
    (numberless : ∀ moment ∈ after.history, moment.opcode ≠ .memoize)
    (same : Machine.Mirrors related below false machine other) :
    ∃ later, runToEnd options other =
        .ok (value.shifted below.shift) later ∧
      Machine.Mirrors related below false after later := by
  obtain ⟨opcodes, last, middle, completes, read, stack, marks, rfl⟩ :=
    completes_of_runToEnd finished
  have kept := history_readOpcode last
  rw [read] at kept
  have lastHistory : middle.history? = last.history? := kept
  obtain ⟨more, lastRecorded, opcodesSame⟩ := completes.history recorded
  have absent : .memoize ∉ opcodes := by
    intro member
    rw [← List.mem_reverse, ← opcodesSame] at member
    obtain ⟨moment, isMoment, isMemoize⟩ := List.mem_map.mp member
    refine numberless moment ?_ isMemoize
    show moment ∈ (middle.history?.getD []).reverse
    rw [lastHistory, lastRecorded]
    exact List.mem_reverse.mpr (List.mem_append_left _ isMoment)
  obtain ⟨further, completesAgain, met⟩ :=
    completes.mirrors followed absent same
  have reads : Mirrors related below false id _ _ :=
    mirrors_readOpcode followed
  obtain ⟨otherMiddle, readAgain, ends⟩ :=
    reads last further .stop middle met read
  refine ⟨{ otherMiddle with stack := [] }, ?_, { ends with stack := rfl }⟩
  rw [completesAgain.runToEnd]
  refine runToEnd_of_finish ?_
  rw [step_eq, bind_of_eq_ok readAgain]
  refine perform_eq_some_iff.mpr ⟨rfl, ?_, ?_, rfl⟩
  · rw [ends.stack, stack]
    rfl
  · rw [ends.marks, marks]
    rfl

end Followed

end Execution

/-! ## Pickles -/

/-- The bytes of a pickle, and the value that they are decoded to in its heap. -/
structure Pickle where
  content : Bytes
  value : Value
  heap : Heap

/-- The bytes are decoded alone, from the first one to the last, and no opcode of
the pickle numbers its slot by those before. -/
def Pickle.StandsAlone (options : Options) (pickle : Pickle) : Prop :=
  ∃ after, Machine.load options (.recording pickle.content) =
      .ok pickle.value after ∧
    after.source.reader.position = pickle.content.length ∧
    after.heap = pickle.heap ∧
    ∀ moment ∈ after.history, moment.opcode ≠ .memoize

/-- What the bytes are decoded to alone. -/
def Pickle.alone (options : Options) (content : Bytes) : Pickle :=
  match Machine.load options (.recording content) with
  | .ok value after => ⟨content, value, after.heap⟩
  | .error _ after => ⟨content, .none, after.heap⟩

theorem Pickle.StandsAlone.alone {options : Options} {content : Bytes}
    (isOk : succeeds (Machine.load options (.recording content)) = true)
    (position : (finalState (Machine.load options
      (.recording content))).source.reader.position = content.length)
    (numberless : ∀ moment ∈ (finalState (Machine.load options
      (.recording content))).history, moment.opcode ≠ .memoize) :
    (Pickle.alone options content).StandsAlone options := by
  unfold Pickle.alone
  cases loaded : Machine.load options (.recording content) with
  | ok value after =>
      rw [loaded] at position numberless
      exact ⟨after, loaded, position, rfl, numberless⟩
  | error failure after =>
      rw [loaded] at isOk
      cases isOk

namespace Machine

variable {options : Options}

/-- A pickle that is decoded alone is decoded where its bytes stand next. -/
theorem load_of_standsAlone {pickle : Pickle}
    (alone : pickle.StandsAlone options) {machine : Machine} {start : Nat}
    {more : Bytes}
    (isAt : machine.source.reader.IsAt start (pickle.content ++ more)) :
    ∃ after, Machine.load options machine =
        .ok (pickle.value.shifted machine.heap.shift) after ∧
      after.source.reader.IsAt (start + pickle.content.length) more ∧
      after.heap = pickle.heap.atop machine.heap := by
  obtain ⟨last, loaded, position, heap, numberless⟩ := alone
  have followed : Reader.IsFollowed
      (Reader.Above (Reader.Precedes more) start) :=
    Reader.Above.isFollowed (Reader.isFollowed_precedes more)
  have starts : Machine.Mirrors
      (Reader.Above (Reader.Precedes more) start) machine.heap false
      (recording pickle.content).restart machine.restart :=
    { source := ⟨isAt.above, (Heap.empty_atop machine.heap).symm⟩
      stack := rfl
      marks := rfl
      memo := .nil false nofun }
  have recorded : (recording pickle.content).restart.history? = some [] := rfl
  have traced := ((isTraced_recording pickle.content).load options).2
  rw [loaded] at traced
  obtain ⟨given, hasGiven, _⟩ := traced rfl
  rw [Execution.load_eq] at loaded
  obtain ⟨after, loadedAgain, ends⟩ :=
    Execution.runToEnd_mirrors followed recorded loaded numberless starts
  refine ⟨after, ?_, ends.source.reader.isAt (hasGiven.isAt position), ?_⟩
  · rw [Execution.load_eq]
    exact loadedAgain
  · rw [← heap]
    exact ends.source.heap

section Inputs

variable {pickles : List Pickle}
variable (alone : ∀ pickle ∈ pickles, pickle.StandsAlone options)
variable {machine : Machine}
variable (isAt : machine.source.reader.IsAt 0 (pickles.flatMap (·.content)))

include alone isAt

/-- After so many pickles the next ones are left. -/
theorem isAt_afterLoads {count : Nat} (bound : count ≤ pickles.length) :
    (machine.afterLoads options count).source.reader.IsAt
      ((pickles.take count).flatMap (·.content)).length
      ((pickles.drop count).flatMap (·.content)) := by
  induction count with
  | zero => exact isAt
  | succ count inductionHypothesis =>
      have here := inductionHypothesis (Nat.le_of_lt bound)
      rw [List.drop_eq_getElem_cons bound, List.flatMap_cons] at here
      obtain ⟨after, loaded, isAt, _⟩ :=
        load_of_standsAlone (alone _ (List.getElem_mem bound)) here
      rw [afterLoads, loaded, List.take_succ_eq_append_getElem bound,
        List.flatMap_append, List.flatMap_singleton, List.length_append]
      exact isAt

/-- The next pickle is decoded, and its objects are put behind the others. -/
theorem load_afterLoads {index : Nat} (bound : index < pickles.length) :
    Machine.load options (machine.afterLoads options index) =
        .ok (pickles[index].value.shifted
          (machine.afterLoads options index).heap.shift)
          (machine.afterLoads options (index + 1)) ∧
      (machine.afterLoads options (index + 1)).heap =
        pickles[index].heap.atop (machine.afterLoads options index).heap := by
  have here := isAt_afterLoads alone isAt (Nat.le_of_lt bound)
  rw [List.drop_eq_getElem_cons bound, List.flatMap_cons] at here
  obtain ⟨after, loaded, _, heap⟩ :=
    load_of_standsAlone (alone _ (List.getElem_mem bound)) here
  have next : machine.afterLoads options (index + 1) = after := by
    rw [afterLoads, loaded]
    rfl
  rw [next]
  exact ⟨loaded, heap⟩

/-- What a pickle has been decoded to stays as it is. -/
theorem holdsCopy_afterLoads {index later : Nat}
    (inRange : index < pickles.length) (behind : index < later)
    (bound : later ≤ pickles.length) :
    (machine.afterLoads options later).heap.HoldsCopy
      (machine.afterLoads options index).heap.shift pickles[index].heap := by
  induction later, behind using Nat.le_induction with
  | base =>
      rw [(load_afterLoads alone isAt bound).2]
      exact Heap.holdsCopy_atop _ _
  | succ later behind inductionHypothesis =>
      rw [(load_afterLoads alone isAt bound).2]
      exact (inductionHypothesis (Nat.le_of_lt bound)).atop _

end Inputs

/-- Pickles that are decoded alone are decoded one by one from their bytes
together. Each load gives the value of its own pickle, over the objects of the
earlier ones, and stops behind the bytes of it. The objects of the pickle are
found there, then and after every later load. -/
theorem load_pickles (options : Options) (pickles : List Pickle)
    (alone : ∀ pickle ∈ pickles, pickle.StandsAlone options)
    (isRecorded : Bool) (index : Nat) (bound : index < pickles.length) :
    let machine := Machine.ofReader
      (.ofBytes (pickles.flatMap (·.content))) .empty isRecorded
    let shift := (machine.afterLoads options index).heap.shift
    Machine.load options (machine.afterLoads options index) =
        .ok (pickles[index].value.shifted shift)
          (machine.afterLoads options (index + 1)) ∧
      (machine.afterLoads options (index + 1)).source.reader.position =
        ((pickles.take (index + 1)).flatMap (·.content)).length ∧
      ∀ later, index < later → later ≤ pickles.length →
        (machine.afterLoads options later).heap.HoldsCopy shift
          pickles[index].heap := by
  intro machine shift
  have isAt : machine.source.reader.IsAt 0
      (pickles.flatMap (·.content)) := Reader.isAt_ofBytes _
  refine ⟨(load_afterLoads alone isAt bound).1, ?_, fun later behind upTo => ?_⟩
  · exact (isAt_afterLoads alone isAt bound).position
  · exact holdsCopy_afterLoads alone isAt bound behind upTo

/-- A list that is put into a slot, and in a frame a list that is put into the
same slot and fetched from there. -/
def listAndPair : List Pickle :=
  [.alone .standard [0x5D, 0x71, 0x00, 0x2E],
    .alone .standard [0x95, 7, 0, 0, 0, 0, 0, 0, 0, 0x5D, 0x71, 0x00, 0x68,
      0x00, 0x86, 0x2E]]

/-- Both items of the pair are the list of its own pickle. -/
theorem load_listAndPair :
    (∀ pickle ∈ listAndPair, pickle.StandsAlone .standard) ∧
      1 < listAndPair.length ∧
      let machine := Machine.ofReader
        (.ofBytes (listAndPair.flatMap (·.content))) .empty false
      let shift := (machine.afterLoads .standard 1).heap.shift
      (listAndPair[1].value.shifted shift).addresses = [1, 1] ∧
        Machine.load .standard (machine.afterLoads .standard 1) =
          .ok (listAndPair[1].value.shifted shift)
            (machine.afterLoads .standard (1 + 1)) ∧
        (machine.afterLoads .standard (1 + 1)).source.reader.position =
          ((listAndPair.take (1 + 1)).flatMap (·.content)).length ∧
        ∀ later, 1 < later → later ≤ listAndPair.length →
          (machine.afterLoads .standard later).heap.HoldsCopy shift
            listAndPair[1].heap := by
  have alone : ∀ pickle ∈ listAndPair, pickle.StandsAlone .standard := by
    intro pickle member
    rcases List.mem_pair.mp member with same | same
    · rw [same]
      exact .alone (by decide +kernel) (by decide +kernel) (by decide +kernel)
    · rw [same]
      exact .alone (by decide +kernel) (by decide +kernel) (by decide +kernel)
  have bound : 1 < listAndPair.length := by decide
  refine ⟨alone, bound, ?_, ?_⟩
  · decide +kernel
  · exact load_pickles .standard listAndPair alone false 1 bound

end Machine

end PickleGraph
