import PickleGraph.Machine.Execution
import PickleGraph.Proofs.Registry.Governed

/-!
# What instructions are composed of

Most instructions are composed of a few actions: they look at the heap and at the
top of the stack, move values between the stack and the marks, make objects and
write them. A property of actions that composition keeps is one of all of these
instructions as soon as the few actions have it. Frames, the memo and states are
left to each property, and so is the end of a pickle. What is inserted under keys
may break off after it has been written.
-/

namespace PickleGraph

/-- The instruction is composed of what all properties of actions are about. -/
def Instruction.IsCommon : Instruction → Prop
  | .stop | .protocol _ | .frame _ | .pushObject _ | .pop | .get _ | .put _
  | .memoize | .build => False
  | _ => True

/-- The instruction inserts under keys into an object that was there before. -/
def Instruction.Inserts : Instruction → Prop
  | .setItem | .setItems | .addItems => True
  | _ => False

namespace Execution

/-! ## Questions -/

/-- Composition keeps the property, and looks at the heap and at the top of the
stack have it. -/
structure Asking (Calm : {α : Type} → Execution α → Prop) : Prop where
  pure : ∀ {α : Type} (result : α), Calm (Pure.pure result : Execution α)
  throw : ∀ {α : Type} (failure : Failure),
    Calm (MonadExcept.throw failure : Execution α)
  bind : ∀ {α β : Type} {action : Execution α} {next : α → Execution β},
    Calm action → (∀ value, Calm (next value)) → Calm (action >>= next)
  heap : Calm Execution.heap
  peek : Calm Execution.peek

namespace Asking

variable {Calm : {α : Type} → Execution α → Prop} (asking : Asking Calm)

include asking

theorem reject {α : Type} (cause : Cause) :
    Calm (Execution.reject cause : Execution α) :=
  asking.throw _

theorem checkHashable (heap : Heap) (items : List Value) :
    Calm (Execution.checkHashable heap items) := by
  induction items with
  | nil => exact asking.pure _
  | cons item rest inductionHypothesis =>
      refine asking.bind ?_ fun _ => inductionHypothesis
      dsimp only
      split
      · exact asking.pure _
      · exact asking.reject _
      · exact asking.throw _

theorem checkReach (reach count : Nat) :
    Calm (Execution.checkReach reach count) := by
  unfold Execution.checkReach
  split
  · exact asking.pure _
  · exact asking.throw _

theorem entriesOf (items : List Value) :
    Calm (Execution.entriesOf items) := by
  unfold Execution.entriesOf
  split
  · exact asking.reject _
  · refine asking.bind asking.heap fun heap => ?_
    exact asking.bind (asking.checkHashable heap _) fun _ => asking.pure _

theorem peekObject : Calm Execution.peekObject? := by
  refine asking.bind asking.peek fun top => ?_
  split
  · exact asking.bind asking.heap fun heap => asking.pure _
  · exact asking.pure _

theorem wrongTarget {α : Type} (opcode : Opcode) :
    Calm (Execution.wrongTarget opcode : Execution α) :=
  asking.bind asking.heap fun _ =>
    asking.bind asking.peek fun _ => asking.reject _

theorem argumentsOf (opcode : Opcode) (value : Value) :
    Calm (Execution.argumentsOf opcode value) := by
  unfold Execution.argumentsOf
  split
  · exact asking.pure _
  · exact asking.reject _

end Asking

/-! ## Changes -/

/-- Calm actions go before any others, and those that are kept come last. Objects
are made and written under a registry. -/
structure Composing (registry : Registry)
    (Calm Kept : {α : Type} → Execution α → Prop) : Prop extends
    Asking Calm where
  kept : ∀ {α : Type} {action : Execution α}, Calm action → Kept action
  follow : ∀ {α β : Type} {action : Execution α} {next : α → Execution β},
    Calm action → (∀ value, Kept (next value)) → Kept (action >>= next)
  proceed : ∀ {action : Execution Unit},
    Kept action → Kept (execute.proceed action)
  push : ∀ value, Calm (Execution.push value)
  pop : Calm Execution.pop
  popMany : ∀ count, Calm (Execution.popMany count)
  mark : Calm Execution.mark
  popMark : Calm Execution.popMark
  alloc : ∀ {object : Object}, object.IsBound registry →
    Calm (decoding (Decoding.alloc object))
  float : ∀ number,
    Calm (decoding (Decoding.make fun heap => .ok (heap.float number)))
  instantiate : ∀ type call, Calm (Execution.instantiate type call)
  setObject : ∀ (address : Address) {object : Object},
    object.IsBound registry → Kept (Execution.setObject address object)

namespace Composing

variable {registry : Registry} {Calm Kept : {α : Type} → Execution α → Prop}
variable (composing : Composing registry Calm Kept)

include composing

theorem replaceTop (value : Value) : Calm (Execution.replaceTop value) :=
  composing.bind composing.pop fun _ => composing.push value

theorem pushNew {object : Object} (isBound : object.IsBound registry) :
    Calm (Execution.pushNew object) :=
  composing.bind (composing.alloc isBound) composing.push

/-! ### Containers -/

theorem extendList (opcode : Opcode) (items : List Value) :
    Kept (Execution.extendList opcode items) := by
  refine composing.follow composing.peekObject fun target => ?_
  split
  · exact composing.setObject _ trivial
  · exact composing.kept (composing.wrongTarget opcode)

section Insertions

variable (setReached : ∀ (address : Address) {object : Object}
  (reach count : Nat), object.IsBound registry →
    Kept (do
      Execution.setObject address object
      Execution.checkReach reach count))

include setReached

/-- All keys are checked before one is inserted. -/
theorem extendDict (opcode : Opcode) (items : List Value) :
    Kept (Execution.extendDict opcode items) := by
  refine composing.follow composing.peekObject fun target => ?_
  split
  · exact composing.follow (composing.entriesOf items) fun entries =>
      setReached _ _ _ trivial
  · exact composing.kept (composing.wrongTarget opcode)

theorem extendSet (items : List Value) :
    Kept (Execution.extendSet items) := by
  refine composing.follow composing.peekObject fun target => ?_
  split
  · refine composing.follow composing.heap fun heap => ?_
    exact composing.follow (composing.checkHashable heap items) fun _ =>
      setReached _ _ _ trivial
  · exact composing.kept (composing.wrongTarget .addItems)

end Insertions

/-! ### Types and instances -/

/-- A reference is pushed with the strategy that the registry binds. -/
theorem pushType (module name : Text) :
    Calm (Execution.pushType registry module name) := by
  unfold Execution.pushType
  split
  · next strategy bound =>
      have isBound : TypeRef.IsBound registry ⟨module, name, strategy⟩ :=
        bound
      exact composing.pushNew isBound
  · exact composing.reject _

theorem instantiateNamed (module name : Text) :
    Calm (Execution.instantiateNamed registry module name) := by
  unfold Execution.instantiateNamed
  split
  · exact composing.reject _
  · next strategy bound =>
      have isBound : TypeRef.IsBound registry ⟨module, name, strategy⟩ :=
        bound
      refine composing.bind composing.popMark fun args => ?_
      refine composing.bind (composing.alloc isBound) fun type => ?_
      exact composing.bind (composing.instantiate type _) fun _ =>
        composing.pure _

/-! ### Buffers -/

theorem protectTop : Calm Execution.protectTop := by
  have showTop : ∀ view, Calm (protectTop.showTop view) :=
    fun view => composing.bind (composing.alloc trivial) composing.replaceTop
  refine composing.bind composing.peek fun top => ?_
  split
  · exact composing.pure _
  · refine composing.bind composing.heap fun heap => ?_
    split
    · exact showTop _
    · exact composing.pure _
    · split
      · exact composing.wrongTarget _
      · split
        · exact composing.throw _
        · split
          · exact showTop _
          · exact composing.pure _
    · exact composing.wrongTarget _
  · exact composing.wrongTarget _

/-! ### Instructions -/

omit composing in
/-- A property of the few actions is one of all common instructions, if it is one
of what they write under keys. -/
theorem execute_of_setReached {options : Options} {nested : Decoding Value}
    (composing : Composing options.registry Calm Kept)
    {instruction : Instruction} (isCommon : instruction.IsCommon)
    (setReached : instruction.Inserts → ∀ (address : Address)
      {object : Object} (reach count : Nat),
        object.IsBound options.registry →
          Kept (do
            Execution.setObject address object
            Execution.checkReach reach count)) :
    Kept (Execution.execute options nested instruction) := by
  have proceed : ∀ {action : Execution Unit}, Calm action →
      Kept (execute.proceed action) :=
    fun calm => composing.proceed (composing.kept calm)
  have pushInstance : ∀ type call,
      Calm (do Execution.push (← Execution.instantiate type call)) :=
    fun type call =>
      composing.bind (composing.instantiate type call) composing.push
  cases instruction with
  | stop | protocol | frame | pushObject | pop | get | put | memoize
  | build => exact isCommon.elim
  | push value => exact proceed (composing.push value)
  | pushFloat number =>
      exact proceed (composing.bind (composing.float number) composing.push)
  | mark => exact proceed composing.mark
  | popMark =>
      exact proceed (composing.bind composing.popMark fun _ =>
        composing.pure _)
  | dup => exact proceed (composing.bind composing.peek composing.push)
  | list =>
      exact proceed (composing.bind composing.popMark fun items =>
        composing.pushNew trivial)
  | dict =>
      refine proceed (composing.bind composing.popMark fun items => ?_)
      refine composing.bind (composing.entriesOf items) fun entries => ?_
      exact composing.bind (composing.checkReach _ _) fun _ =>
        composing.pushNew trivial
  | tuple =>
      exact proceed (composing.bind composing.popMark fun items =>
        composing.push _)
  | frozenSet =>
      refine proceed (composing.bind composing.popMark fun items => ?_)
      refine composing.bind composing.heap fun heap => ?_
      refine composing.bind (composing.checkHashable heap items) fun _ => ?_
      exact composing.bind (composing.checkReach _ _) fun _ =>
        composing.push _
  | tupleOf size =>
      exact proceed (composing.bind (composing.popMany size) fun _ =>
        composing.push _)
  | append =>
      exact composing.proceed (composing.follow composing.pop fun value =>
        composing.extendList _ _)
  | appends =>
      exact composing.proceed (composing.follow composing.popMark
        fun items => composing.extendList _ _)
  | setItem =>
      exact composing.proceed (composing.follow composing.pop fun value =>
        composing.follow composing.pop fun key =>
          composing.extendDict (setReached trivial) _ _)
  | setItems =>
      exact composing.proceed (composing.follow composing.popMark
        fun items => composing.extendDict (setReached trivial) _ _)
  | addItems =>
      exact composing.proceed (composing.follow composing.popMark
        (composing.extendSet (setReached trivial)))
  | «global» module name => exact proceed (composing.pushType module name)
  | stackGlobal =>
      refine proceed (composing.bind composing.pop fun name => ?_)
      refine composing.bind composing.pop fun module => ?_
      split
      · exact composing.pushType _ _
      · exact composing.reject _
  | inst module name =>
      exact proceed (composing.instantiateNamed module name)
  | obj =>
      refine proceed (composing.bind composing.popMark fun items => ?_)
      split
      · exact composing.reject _
      · exact pushInstance _ _
  | newObj =>
      refine proceed (composing.bind composing.pop fun args => ?_)
      refine composing.bind composing.pop fun type => ?_
      exact composing.bind (composing.argumentsOf _ args) fun args =>
        pushInstance _ _
  | newObjEx =>
      refine proceed (composing.bind composing.pop fun named => ?_)
      refine composing.bind composing.pop fun args => ?_
      refine composing.bind composing.pop fun type => ?_
      refine composing.bind composing.heap fun heap => ?_
      split
      · exact pushInstance _ _
      · exact composing.reject _
  | reduce =>
      refine proceed (composing.bind composing.pop fun args => ?_)
      refine composing.bind composing.peek fun type => ?_
      refine composing.bind (composing.argumentsOf _ args) fun args => ?_
      exact composing.bind (composing.instantiate _ _) composing.replaceTop
  | readonlyBuffer => exact proceed composing.protectTop

omit composing in
/-- Where all actions are calm, writing under keys is as well. -/
theorem execute {options : Options} {nested : Decoding Value}
    (composing : Composing options.registry Kept Kept)
    {instruction : Instruction} (isCommon : instruction.IsCommon) :
    Kept (Execution.execute options nested instruction) :=
  composing.execute_of_setReached isCommon
    fun _ address _ _ _ isBound =>
      composing.bind (composing.setObject address isBound) fun _ =>
        composing.checkReach _ _

end Composing

end Execution

end PickleGraph
