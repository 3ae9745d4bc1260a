import PickleGraph.Construction.Instance
import PickleGraph.Construction.State
import PickleGraph.Machine.Basic
import PickleGraph.Machine.Instruction
import PickleGraph.Registry

/-!
# Execution of instructions

An instruction takes its operands from the stack and puts its result there.
Instances are made as the registered strategies say; nothing that a stream names
is run.
-/

namespace PickleGraph

/-- What a decode depends on besides its input. -/
structure Options where
  registry : Registry
  rules : TextRules := .ascii
  siblings? : Option Payload.Siblings := none
  names : CharacterNames := .basicLatin

namespace Execution

/-! ## Mappings and sets -/

/-- Fails unless every value can be a key. -/
def checkHashable (heap : Heap) (items : List Value) : Execution Unit :=
  items.forM fun item =>
    match heap.checkHashable item with
    | .ok () => return
    | .error .wrongType =>
        reject (.unhashable (Text.ofString (heap.typeName item)))
    | .error refusal => throw (.refused refusal)

/-- Fails unless all keys are within reach of comparisons. -/
def checkReach (reach count : Nat) : Execution Unit :=
  if reach = count then return else throw (.refused .recursion)

/-- Pairs up keys and values that alternate. -/
def pairUp? : List Value → Option (List (Value × Value))
  | [] => some []
  | key :: value :: rest => (pairUp? rest).map ((key, value) :: ·)
  | [_] => none

/-- Checked entries from keys and values that alternate. -/
def entriesOf (items : List Value) : Execution (List (Value × Value)) := do
  match pairUp? items with
  | none => reject .oddItems
  | some entries => do
      checkHashable (← heap) (entries.map (·.1))
      return entries

def peekObject? : Execution (Option (Address × Object)) := do
  match ← peek with
  | .object address => return some (address, (← heap).get address)
  | _ => return none

/-- Refuses the top of the stack as the operand of an opcode. -/
def wrongTarget {α : Type} (opcode : Opcode) : Execution α := do
  let name := (← heap).typeName (← peek)
  reject (.wrongTarget opcode (Text.ofString name))

def setObject (address : Address) (object : Object) : Execution Unit :=
  decoding (Decoding.setObject address object)

def extendList (opcode : Opcode) (items : List Value) : Execution Unit := do
  match ← peekObject? with
  | some (address, .list present) =>
      setObject address (.list (present ++ items.toArray))
  | _ => wrongTarget opcode

/-- Binds keys one after the other, up to one that is beyond comparison. -/
def extendDict (opcode : Opcode) (items : List Value) : Execution Unit := do
  match ← peekObject? with
  | some (address, .dict ordered present) => do
      let entries ← entriesOf items
      let reach := Entries.reach present entries
      setObject address
        (.dict ordered (Entries.merge present (entries.take reach)))
      checkReach reach entries.length
  | _ => wrongTarget opcode

def extendSet (items : List Value) : Execution Unit := do
  match ← peekObject? with
  | some (address, .set present) => do
      checkHashable (← heap) items
      let reach := Members.reach present items
      setObject address (.set (Members.merge present (items.take reach)))
      checkReach reach items.length
  | _ => wrongTarget .addItems

/-! ## Types and instances -/

def pushType (registry : Registry) (module name : Text) :
    Execution Unit := do
  match registry.resolve ⟨module, name⟩ with
  | .ok strategy => pushNew (.typeRef ⟨module, name, strategy⟩)
  | .error cause => reject cause

def instantiate (type : Value) (call : Call) : Execution Value :=
  decoding (Decoding.build (·.instantiate type call))

def argumentsOf (opcode : Opcode) : Value → Execution (List Value)
  | .tuple args => return args
  | _ => reject (.notArguments opcode)

/-- Makes an instance of a type by its name. The values above the last mark
are used up, and the instance belongs to them. -/
def instantiateNamed (registry : Registry) (module name : Text) :
    Execution Unit := do
  match registry.resolve ⟨module, name⟩ with
  | .error cause => reject cause
  | .ok strategy => do
      let args ← popMark
      let type ← decoding
        (Decoding.alloc (.typeRef ⟨module, name, strategy⟩))
      let _ ← instantiate type (Call.ofArgs args)

/-! ## States -/

/-- The array that takes the place of a placeholder. -/
def materialize
    (options : Options) (nested : Decoding Value)
    (layout : ArrayLayout) (record : Record) : Decoding Value :=
  match layout with
  | .inline => Payload.readInline options.names record nested
  | .sibling => Payload.readSibling options.names record options.siblings?

/-- Gives the record on top of the stack a state. A placeholder is replaced by
its array, also in the memo. -/
def giveState (options : Options) (nested : Decoding Value) :
    Execution Unit := do
  let state ← pop
  match ← peekObject? with
  | some (address, .record record) => do
      let record ← decoding
        (Decoding.query fun heap => record.applyState heap state)
      setObject address (.record record)
      match record.strategy with
      | .array _ layout => do
          let array ← decoding (materialize options nested layout record)
          replaceTop array
          modify fun machine =>
            { machine with memo := Memo.replace address array machine.memo }
      | _ => return
  | _ => wrongTarget .build

/-! ## Buffers -/

/-- Whether a view cannot show elements of a type. -/
def hidesTimes : Dtype → Bool
  | .element kind _ _ _ => kind = .timedelta || kind = .datetime
  | .subarray base _ => hidesTimes base
  | .struct fields _ => anyHides fields
where
  anyHides : List (Text × Nat × Dtype) → Bool
    | [] => false
    | (_, _, type) :: rest => hidesTimes type || anyHides rest

/-- Puts a read-only view in the place of an object that can be written. -/
def protectTop : Execution Unit := do
  match ← peek with
  | .bytes _ => return
  | .object address =>
      match (← heap).get address with
      | .bytearray content =>
          showTop ⟨address, content, [content.length]⟩
      | .view _ => return
      | .array array =>
          match array.bytes? with
          | none => wrongTarget .readonlyBuffer
          | some content =>
              if hidesTimes array.type then
                throw (.refused .badValue)
              else if array.writable then
                showTop ⟨address, content, array.shape⟩
              else
                return
      | _ => wrongTarget .readonlyBuffer
  | _ => wrongTarget .readonlyBuffer
where
  showTop (view : MemoryView) : Execution Unit := do
    replaceTop (← decoding (Decoding.alloc (.view view)))

/-! ## Instructions -/

/-- The value that remains when a pickle ends. -/
def finish : Execution Value := do
  let machine ← get
  if !machine.marks.isEmpty then
    reject .openMarkAtStop
  else if machine.stack.length ≠ 1 then
    reject (.depthAtStop machine.stack.length)
  else
    pop

/-- Executes an instruction; `nested` decodes a pickle inside this one. The
result is the final value of a pickle that has ended. -/
def execute
    (options : Options) (nested : Decoding Value) :
    Instruction → Execution (Option Value)
  | .stop => return some (← finish)
  | .protocol version => proceed do
      modify fun machine => { machine with protocol := version }
  | .frame size => proceed do
      decoding (Decoding.reading (Reader.openFrame size))
  | .push value => proceed do push value
  | .pushFloat number => proceed do
      push (← decoding (Decoding.make fun heap => .ok (heap.float number)))
  | .pushObject object => proceed do pushNew object
  | .mark => proceed do mark
  | .pop => proceed do
      if (← get).stack.isEmpty then
        let _ ← popMark
      else
        let _ ← pop
  | .popMark => proceed do
      let _ ← popMark
  | .dup => proceed do push (← peek)
  | .list => proceed do
      pushNew (.list (← popMark).toArray)
  | .dict => proceed do
      let entries ← entriesOf (← popMark)
      checkReach (Entries.reach [] entries) entries.length
      pushNew (.dict false (Entries.merge [] entries))
  | .tuple => proceed do push (.tuple (← popMark))
  | .frozenSet => proceed do
      let items ← popMark
      checkHashable (← heap) items
      checkReach (Members.reach [] items) items.length
      push (.frozenset (Members.merge [] items))
  | .tupleOf size => proceed do push (.tuple (← popMany size))
  | .append => proceed do
      let value ← pop
      extendList .append [value]
  | .appends => proceed do extendList .appends (← popMark)
  | .setItem => proceed do
      let value ← pop
      let key ← pop
      extendDict .setItem [key, value]
  | .setItems => proceed do extendDict .setItems (← popMark)
  | .addItems => proceed do extendSet (← popMark)
  | .get slot => proceed do push (← memoGet slot)
  | .put slot => proceed do
      if slot < 0 then reject .negativeSlot else memoPut slot.toNat
  | .memoize => proceed do memoPut (← get).memo.length
  | .global module name => proceed do
      pushType options.registry module name
  | .stackGlobal => proceed do
      let name ← pop
      let module ← pop
      match module, name with
      | .str module, .str name => pushType options.registry module name
      | _, _ => reject .typeNotText
  | .inst module name => proceed do
      instantiateNamed options.registry module name
  | .obj => proceed do
      match ← popMark with
      | [] => reject .missingClass
      | type :: args => push (← instantiate type (Call.ofArgs args))
  | .newObj => proceed do
      let args ← pop
      let type ← pop
      let args ← argumentsOf .newObj args
      push (← instantiate type (Call.ofArgs args))
  | .newObjEx => proceed do
      let named ← pop
      let args ← pop
      let type ← pop
      match args, (← heap).entries? named with
      | .tuple args, some named =>
          push (← instantiate type ⟨args, named⟩)
      | _, _ => reject (.notArguments .newObjEx)
  | .reduce => proceed do
      let args ← pop
      let type ← peek
      let args ← argumentsOf .reduce args
      replaceTop (← instantiate type (Call.ofArgs args))
  | .build => proceed do giveState options nested
  | .readonlyBuffer => proceed do protectTop
where
  proceed (action : Execution Unit) : Execution (Option Value) := do
    action
    return none

end Execution

end PickleGraph
