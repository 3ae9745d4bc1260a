import PickleGraph.Proofs.Decoding.Contract
import PickleGraph.Proofs.Decoding.Payload
import PickleGraph.Proofs.Reader
import PickleGraph.Proofs.Registry.Governed
import PickleGraph.Storage.Basic

/-!
# What decoding blames

Only the machine itself blames the numbers of values and of marks on its stack.
Readers, arguments, payloads, constructors and states fail for other reasons,
and what goes wrong in a pickle inside another one is blamed on its payload.
-/

namespace PickleGraph

open Actions

/-- The defects in the numbers of values and of marks on the stack. -/
def Cause.blamesDepth : Cause → Bool
  | .underflow | .missingMark | .missingClass | .openMarkAtStop
  | .depthAtStop _ => true
  | _ => false

namespace Failure

def blamesDepth : Failure → Bool
  | .defect cause _ => cause.blamesDepth
  | .refused _ | .source _ => false

def isRefusal : Failure → Bool
  | .refused _ => true
  | .defect .. | .source _ => false

/-- A failure that does not blame the depth of the stack. -/
def IsApart (failure : Failure) : Prop :=
  failure.blamesDepth = false

theorem isApart_of_class {cause : Cause} {offset : Option Nat}
    (other : cause.failureClass ≠ .stackViolation) :
    (defect cause offset).IsApart := by
  cases cause <;> first
    | rfl
    | exact absurd rfl other

end Failure

theorem isApart_lift {α : Type} (outcome : Except Refusal α) :
    Rejects Failure.IsApart (liftM outcome : Except Failure α) := by
  show Rejects Failure.IsApart (outcome.mapError Failure.refused)
  exact .mapError fun _ _ => rfl

/-! ## Readers -/

namespace Reader

/-- A failure to read `count` bytes: the depth of the stack is not blamed, and
only a count out of range is refused. -/
def FailsFor (count : Nat) (failure : Failure) : Prop :=
  failure.IsApart ∧
    (failure.isRefusal = true → Instruction.maxSize < count)

theorem maxSize_lt_of_countLimit {count : Nat}
    (large : countLimit ≤ count) : Instruction.maxSize < count := by
  unfold countLimit at large
  unfold Instruction.maxSize
  omega

theorem failsFor_of_not_refusal {count : Nat} {failure : Failure}
    (isApart : failure.IsApart) (accepted : failure.isRefusal = false) :
    FailsFor count failure :=
  ⟨isApart, fun refused => Bool.noConfusion (accepted.symm.trans refused)⟩

/-- At most `count` bytes have been handed out. -/
abbrev HandsOut (count : Nat) : EStateM.Result Failure Reader Bytes → Prop :=
  EndsIn (fun data _ => data.length ≤ count)
    (fun failure _ => FailsFor count failure)

theorem handsOut_readFile
    (count : Nat) (rest : Bytes) (offset : Nat)
    (ending : Option SourceFault) :
    HandsOut count (readFile count rest offset ending) := by
  have natural : ¬ (count : Int) < 0 := by omega
  have short : (rest.take count).length ≤ count :=
    List.length_take_le count rest
  unfold readFile
  by_cases large : countLimit ≤ (count : Int)
  · rw [if_pos large]
    exact ⟨rfl, fun _ => maxSize_lt_of_countLimit large⟩
  · simp only [if_neg large, if_neg natural, Int.toNat_natCast]
    cases ending with
    | none => exact short
    | some fault =>
        dsimp only
        by_cases cut : (count : Int) < 0 ∨ (rest.take count).length < count
        · rw [if_pos cut]
          exact failsFor_of_not_refusal rfl rfl
        · rw [if_neg cut]
          exact short

theorem handsOut_exactly {count position : Nat}
    {rebuild : Reader → Nat → Reader}
    {result : EStateM.Result Failure Reader Bytes}
    (below : HandsOut count result) :
    HandsOut count (exactly count position rebuild result) := by
  cases result with
  | error failure after => exact below
  | ok data after =>
      unfold exactly
      dsimp only
      by_cases short : data.length < count
      · rw [if_pos short]
        exact failsFor_of_not_refusal rfl rfl
      · rw [if_neg short]
        exact below

/-- A reader hands out no more than it was asked for. -/
theorem handsOut_read (count : Nat) (reader : Reader) :
    HandsOut count (reader.read count) := by
  have natural : ¬ (count : Int) < 0 := by omega
  induction reader with
  | file rest offset ending =>
      exact handsOut_readFile count rest offset ending
  | cursor below position inductionHypothesis =>
      rw [read, if_neg natural]
      exact handsOut_exactly inductionHypothesis
  | unframer below position frame inductionHypothesis =>
      cases frame with
      | none =>
          rw [read, if_neg natural]
          exact handsOut_exactly inductionHypothesis
      | some frame =>
          rw [read]
          by_cases outside : (count : Int) < -countLimit ∨ countLimit ≤ count
          · rw [if_pos outside]
            have large : countLimit ≤ (count : Int) := by
              unfold countLimit at outside ⊢
              omega
            exact ⟨rfl, fun _ => maxSize_lt_of_countLimit large⟩
          · have short : (frame.rest.take count).length ≤ count :=
              List.length_take_le count frame.rest
            simp only [if_neg outside, if_neg natural, Int.toNat_natCast]
            by_cases spent :
                ((frame.rest.take count).isEmpty && (count : Int) != 0) = true
            · rw [if_pos spent]
              exact handsOut_exactly inductionHypothesis
            · rw [if_neg spent]
              by_cases cut :
                  ((frame.rest.take count).length : Int) < count
              · rw [if_pos cut]
                exact failsFor_of_not_refusal rfl rfl
              · rw [if_neg cut]
                exact short

/-- A failure to read a line: the depth of the stack is not blamed, and nothing
is refused. -/
def FailsForLine (failure : Failure) : Prop :=
  failure.IsApart ∧ failure.isRefusal = false

/-- A line has been handed out. -/
abbrev HandsOutLine : EStateM.Result Failure Reader Bytes → Prop :=
  EndsIn (fun _ _ => True) (fun failure _ => FailsForLine failure)

theorem handsOutLine_wholeLine {position : Nat}
    {rebuild : Reader → Nat → Reader}
    {result : EStateM.Result Failure Reader Bytes}
    (below : HandsOutLine result) :
    HandsOutLine (wholeLine position rebuild result) := by
  cases result with
  | error failure after => exact below
  | ok data after =>
      unfold wholeLine
      dsimp only
      by_cases complete : endsLine data = true
      · rw [if_pos complete]
        trivial
      · rw [if_neg complete]
        exact ⟨rfl, rfl⟩

theorem handsOutLine_readLine (reader : Reader) :
    HandsOutLine reader.readLine := by
  induction reader with
  | file rest offset ending =>
      rw [readLine]
      cases ending with
      | none => trivial
      | some fault =>
          dsimp only
          by_cases complete : endsLine (splitLine rest).1 = true
          · rw [if_pos complete]
            trivial
          · rw [if_neg complete]
            exact ⟨rfl, rfl⟩
  | cursor below position inductionHypothesis =>
      exact handsOutLine_wholeLine inductionHypothesis
  | unframer below position frame inductionHypothesis =>
      cases frame with
      | none => exact handsOutLine_wholeLine inductionHypothesis
      | some frame =>
          rw [readLine]
          dsimp only
          by_cases empty : (splitLine frame.rest).1.isEmpty = true
          · rw [if_pos empty]
            exact handsOutLine_wholeLine inductionHypothesis
          · rw [if_neg empty]
            by_cases complete : endsLine (splitLine frame.rest).1 = true
            · rw [if_pos complete]
              trivial
            · rw [if_neg complete]
              exact ⟨rfl, rfl⟩

theorem isApart_openFrame (size : Nat) (reader : Reader) :
    EndsIn (fun _ _ => True) (fun failure _ => failure.IsApart)
      (reader.openFrame size) := by
  cases reader with
  | file rest offset ending => trivial
  | cursor below position => trivial
  | unframer below position frame =>
      have handsOut := handsOut_read size (cursor below position)
      rw [openFrame]
      split
      · exact rfl
      · cases outcome : (cursor below position).read size with
        | ok data after =>
            cases after <;> trivial
        | error failure after =>
            rw [outcome] at handsOut
            cases after <;> exact handsOut.1

end Reader

/-! ## Decoding actions -/

namespace Decoding

/-- A decoding action that does not blame the depth of the stack. -/
abbrev IsApart {α : Type} (action : Decoding α) : Prop :=
  Abides (fun _ => True) (fun failure _ => failure.IsApart) action

theorem meets_read (count : Nat) :
    Meets (fun _ => True) (read count)
      (fun data _ => data.length ≤ count)
      (fun failure _ => Reader.FailsFor count failure) := by
  intro source _
  have met := Reader.handsOut_read count source.reader
  unfold read reading
  cases outcome : Reader.read count source.reader with
  | ok data reader =>
      rw [outcome] at met
      exact met
  | error failure reader =>
      rw [outcome] at met
      exact met

theorem abides_readLine :
    Abides (fun _ => True) (fun failure _ => Reader.FailsForLine failure)
      readLine := by
  intro source _
  have met := Reader.handsOutLine_readLine source.reader
  unfold readLine reading
  cases outcome : Reader.readLine source.reader with
  | ok data reader => trivial
  | error failure reader =>
      rw [outcome] at met
      exact met

namespace IsApart

variable {α β : Type}

theorem pure (result : α) : IsApart (Pure.pure result) :=
  Meets.pure fun _ _ => trivial

theorem throw {failure : Failure} (isApart : failure.IsApart) :
    IsApart (MonadExcept.throw failure : Decoding α) :=
  Meets.throw fun _ _ => isApart

theorem bind {action : Decoding α} {next : α → Decoding β}
    (first : IsApart action) (second : ∀ value, IsApart (next value)) :
    IsApart (action >>= next) :=
  Meets.bind first second

theorem read (count : Nat) : IsApart (Decoding.read count) :=
  (meets_read count).mono (fun _ _ => trivial) (fun _ _ _ => trivial)
    (fun _ _ failed => failed.1)

theorem tell : IsApart tell? :=
  fun _ _ => trivial

theorem heap : IsApart Decoding.heap :=
  fun _ _ => trivial

theorem alloc (object : Object) : IsApart (Decoding.alloc object) :=
  fun _ _ => trivial

theorem query {answer : Heap → Except Failure α}
    (rejects : ∀ heap, Rejects Failure.IsApart (answer heap)) :
    IsApart (Decoding.query answer) :=
  abides_query fun source _ => rejects source.heap

theorem make (change : Heap → Except Refusal (α × Heap)) :
    IsApart (Decoding.make change) :=
  abides_build fun source => isApart_lift (change source.heap)

theorem ask (answer : Heap → Except Refusal α) :
    IsApart (Decoding.ask answer) := by
  rw [ask_eq_query]
  exact query fun heap => .mapError fun _ _ => rfl

/-- An action is apart if all its failures are changed into such ones. -/
theorem mapFailure {change : Failure → Failure} {action : Decoding α}
    (isApart : IsApart action)
    (changed : ∀ failure : Failure, failure.IsApart →
      (change failure).IsApart) :
    IsApart (Decoding.mapFailure change action) := by
  intro source _
  have met := isApart source trivial
  unfold Decoding.mapFailure
  cases outcome : action source with
  | ok result after => trivial
  | error failure after =>
      rw [outcome] at met
      exact changed failure met

theorem onReader (reader : Reader) {action : Decoding α}
    (isApart : IsApart action) :
    IsApart (Decoding.onReader reader action) := by
  intro source _
  have met := isApart { source with reader } trivial
  unfold Decoding.onReader
  cases outcome : action { source with reader } with
  | ok result after => trivial
  | error failure after =>
      rw [outcome] at met
      exact met

end IsApart

end Decoding

/-! ## Payloads -/

namespace Heap

theorem isApart_payloadDtype (heap : Heap) (value : Value) :
    Rejects Failure.IsApart (heap.payloadDtype value) := by
  have quoted : ∀ cause : Text → Cause,
      (∀ text, (cause text).blamesDepth = false) →
      Rejects Failure.IsApart (do
        Failure.raise (α := Dtype) (cause (← heap.quote value))) :=
    fun cause other => .bind (isApart_lift _) fun text _ =>
      .error (other text)
  unfold payloadDtype
  split
  · exact .ok _
  · exact quoted _ fun _ => rfl
  · split
    · exact quoted _ fun _ => rfl
    · exact quoted _ fun _ => rfl
    · exact quoted _ fun _ => rfl
    · exact quoted _ fun _ => rfl
    · exact quoted _ fun _ => rfl
    · exact .error rfl
  · exact .error rfl

end Heap

namespace Payload

open Decoding

theorem isApart_readExact (count : Nat) : IsApart (readExact count) := by
  have unreadable : ∀ failure : Failure, failure.IsApart →
      (readExact.unreadable failure).IsApart := by
    intro failure isApart
    unfold readExact.unreadable
    split
    · split
      · rfl
      · exact isApart
    · exact isApart
  refine .bind .tell fun offset => ?_
  refine .bind (.mapFailure (.read count) unreadable) fun data => ?_
  split
  · exact .throw rfl
  · exact .pure data

theorem isApart_literalValue (names : CharacterNames) (offset : Option Nat)
    (text : Text) :
    IsApart (literalValue names offset text) := by
  unfold literalValue
  split
  · exact .throw rfl
  · refine .mapFailure (.make _) fun failure isApart => ?_
    split
    · rfl
    · rfl
    · rfl
    · exact isApart

theorem isApart_composing : Composing IsApart where
  pure := .pure
  bind := .bind
  fail isCorrupt := .throw (Failure.isApart_of_class (by
    rw [isCorrupt]
    exact nofun))
  tell := .tell
  heap := .heap
  ask := .ask
  make := .make
  alloc := .alloc
  payloadDtype value := .query fun heap => heap.isApart_payloadDtype value
  readExact := isApart_readExact
  literalValue := isApart_literalValue

/-- Whatever goes wrong in a pickle inside another one, its payload is
blamed. -/
theorem isApart_readNested (nested : Decoding Value) :
    IsApart (readNested nested) := by
  have corrupt : ∀ (offset : Option Nat) (failure : Failure),
      (readNested.corrupt offset failure).IsApart := by
    intro offset failure
    cases failure with
    | defect cause place => rfl
    | refused refusal => cases refusal <;> rfl
    | source fault => rfl
  refine .bind .tell fun offset => ?_
  refine .bind ?_ fun value => ?_
  · intro source _
    unfold mapFailure
    split
    · trivial
    · exact corrupt offset _
  · refine .bind .heap fun heap => ?_
    split
    · exact .pure _
    · exact .bind .heap fun heap => .bind .tell fun offset => .throw rfl

theorem isApart_readInline (names : CharacterNames) (record : Record)
    (nested : Decoding Value) :
    IsApart (readInline names record nested) :=
  isApart_composing.readInline record id .bind (isApart_readNested nested)

end Payload

/-! ## Files beside the stream -/

/-- The options that decoding starts from: files are found beside a storage, or
not at all. -/
inductive Options.IsStored : Options → Prop
  | nowhere (registry : Registry) (rules : TextRules)
      (names : CharacterNames) :
      IsStored ⟨registry, rules, none, names⟩
  | beside (storage : Storage) (files : Files) (options : Options) :
      IsStored (storage.options files options)

namespace Storage

theorem isApart_sibling (storage : Storage) (files : Files) (name : Text) :
    Rejects Failure.IsApart (storage.sibling files name) := by
  unfold sibling
  split
  · exact .error rfl
  · split
    · exact .error rfl
    · unfold Files.fetch
      dsimp only
      split
      · exact .error rfl
      · split
        · exact .ok _
        · exact .error rfl

end Storage

theorem Options.IsStored.isApart {options : Options}
    (isStored : options.IsStored) {siblings : Payload.Siblings}
    (given : options.siblings? = some siblings) (name : Text) :
    Rejects Failure.IsApart (siblings name) := by
  cases isStored with
  | nowhere registry rules names => cases given
  | beside storage files options =>
      cases given
      exact .bind (storage.isApart_sibling files name) fun _ _ => .ok _

namespace Payload

open Decoding

theorem isApart_readSibling (names : CharacterNames) (record : Record)
    {options : Options} (isStored : options.IsStored) :
    IsApart (readSibling names record options.siblings?) := by
  unfold readSibling
  split
  · exact .throw rfl
  · split
    · exact .throw rfl
    · next fileName _ _ siblings given =>
        have opens := isStored.isApart given fileName
        split
        · next reader _ =>
            exact .bind (.onReader reader isApart_composing.readHeaded)
              fun array => .alloc _
        · next failure refused =>
            exact .throw (opens failure refused)

theorem isApart_materialize {options : Options} (isStored : options.IsStored)
    (nested : Decoding Value) (layout : ArrayLayout) (record : Record) :
    IsApart (Execution.materialize options nested layout record) := by
  cases layout with
  | inline => exact isApart_readInline options.names record nested
  | sibling => exact isApart_readSibling options.names record isStored

end Payload

/-! ## Constructors and states -/

namespace Constructor

theorem isApart_ofCall (typeName : String) (call : Call) (heap : Heap) :
    Rejects Failure.IsApart (Octets.ofCall typeName call heap) := by
  refine .bind (isApart_lift _) fun args _ => ?_
  split
  · exact .error rfl
  · split
    · exact .ok _
    · split
      · exact .error rfl
      · exact isApart_lift _
    · split
      · exact isApart_lift _
      · exact .error rfl
    · split
      · exact isApart_lift _
      · exact .error rfl
    · exact .error rfl

theorem isApart_decodeCarrier (call : Call) (heap : Heap) :
    Rejects Failure.IsApart (decodeCarrier call heap) := by
  refine .bind (isApart_lift _) fun values _ => ?_
  dsimp only
  split
  · exact .bind (isApart_lift _) fun _ _ => .error rfl
  · split
    · exact .ok _
    · exact .bind (isApart_lift _) fun _ _ => .ok _
    · exact .error rfl

theorem isApart_reconstructed (call : Call) (heap : Heap) :
    Rejects Failure.IsApart (reconstructed call heap) := by
  refine .bind (isApart_lift _) fun values _ => ?_
  dsimp only
  split
  · exact .ok _
  · exact .error rfl

theorem isApart_arrayOfBuffer (call : Call) (heap : Heap) :
    Rejects Failure.IsApart (arrayOfBuffer call heap) := by
  refine .bind (isApart_lift _) fun values _ => ?_
  dsimp only
  refine .bind ?_ fun made _ => .ok _
  unfold Payload.ofLentBuffer
  refine .bind (heap.isApart_payloadDtype _) fun type _ => ?_
  refine .bind (isApart_lift _) fun buffer _ => ?_
  dsimp only
  split
  · exact .ok _
  · exact .bind (isApart_lift _) fun _ _ => .error rfl
  · exact .bind (isApart_lift _) fun _ _ => .error rfl
  · exact .error rfl

theorem isApart_apply
    {instantiate : TypeRef → Heap → Except Failure (Value × Heap)}
    (inner : ∀ reference heap,
      Rejects Failure.IsApart (instantiate reference heap))
    (constructor : Constructor) (call : Call) (heap : Heap) :
    Rejects Failure.IsApart (apply instantiate constructor call heap) := by
  refine .bind (isApart_lift _) fun _ _ => ?_
  cases constructor with
  | object =>
      refine .bind (isApart_lift _) fun args _ => ?_
      split
      · exact .ok _
      · exact .error rfl
  | set | frozenset | list | tuple | dict | orderedDict =>
      exact .bind (isApart_lift _) fun _ _ => .ok _
  | bytes | bytearray =>
      exact .bind (isApart_ofCall _ call heap) fun _ _ => .ok _
  | complex => exact .bind (isApart_lift _) fun _ _ => .ok _
  | encode =>
      exact .bind (isApart_decodeCarrier call heap) fun _ _ => .ok _
  | reconstructor =>
      exact .bind (isApart_reconstructed call heap) fun reference _ =>
        inner reference heap
  | fromBuffer => exact isApart_arrayOfBuffer call heap

end Constructor

namespace TypeRef

theorem isApart_instantiateWith
    {inner : TypeRef → Heap → Except Failure (Value × Heap)}
    (innerApart : ∀ reference heap,
      Rejects Failure.IsApart (inner reference heap))
    (reference : TypeRef) (call : Call) (heap : Heap) :
    Rejects Failure.IsApart
      (reference.instantiateWith inner call heap) := by
  unfold instantiateWith
  split
  · exact Constructor.isApart_apply innerApart _ call heap
  · exact .ok _
  · exact .ok _
  · exact .ok _

theorem isApart_instantiate (reference : TypeRef) (call : Call)
    (heap : Heap) :
    Rejects Failure.IsApart (reference.instantiate call heap) := by
  have refuses : ∀ (_ : TypeRef) (_ : Heap), Rejects Failure.IsApart
      (.error (.refused .wrongType) : Except Failure (Value × Heap)) :=
    fun _ _ => .error rfl
  refine isApart_instantiateWith (fun reference heap => ?_) reference call
    heap
  exact isApart_instantiateWith refuses reference _ heap

theorem isApart_blame (reference : TypeRef) {failure : Failure}
    (isApart : failure.IsApart) : (reference.blame failure).IsApart := by
  unfold blame
  split
  · split
    · rfl
    · rfl
  · exact isApart

end TypeRef

namespace Heap

theorem isApart_instantiate (heap : Heap) (type : Value) (call : Call) :
    Rejects Failure.IsApart (heap.instantiate type call) := by
  unfold Heap.instantiate
  split
  · next reference _ =>
      refine .mapError fun failure failed => ?_
      exact reference.isApart_blame
        (reference.isApart_instantiate call heap failure failed)
  · exact .error rfl

end Heap

namespace Record

theorem isApart_mergeMapping (heap : Heap) (record : Record)
    (state : Value) :
    Rejects Failure.IsApart (mergeMapping heap record state) := by
  refine .bind (isApart_lift _) fun isTrue _ => ?_
  split
  · split
    · exact .ok _
    · exact .error rfl
  · exact .ok _

theorem isApart_mergeState (heap : Heap) (record : Record)
    (state : Value) :
    Rejects Failure.IsApart (mergeState heap record state) := by
  fun_induction mergeState heap record state with
  | case1 state slots isMapping inner =>
      refine .bind (isApart_lift _) fun isTrue _ => ?_
      dsimp only
      split
      · exact .bind inner fun merged _ =>
          isApart_mergeMapping heap merged state
      · exact .bind (.ok _) fun merged _ =>
          isApart_mergeMapping heap merged state
  | case2 state slots notMapping => exact isApart_mergeMapping heap _ _
  | case3 => exact isApart_mergeMapping heap _ _

theorem isApart_applyState (heap : Heap) (record : Record)
    (state : Value) :
    Rejects Failure.IsApart (applyState heap record state) := by
  unfold applyState
  split
  · split
    · exact .ok _
    · split
      · exact .ok _
      · exact .ok _
    · exact .error rfl
  · exact isApart_mergeState heap record state

end Record

end PickleGraph
