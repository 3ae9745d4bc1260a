import PickleGraph.Decoding
import PickleGraph.Number.Integer
import PickleGraph.Opcode

/-!
# The machine

The machine keeps the values under construction on a stack. A mark sets the
stack aside and starts an empty one. The memo holds values under slots, in the
order in which the slots were first filled.
-/

namespace PickleGraph

/-- What can be seen after an opcode. -/
structure Moment where
  opcode : Opcode
  offset : Nat
  protocol : Nat
  stack : List Value
  marks : List (List Value)
  memo : List (Nat × Value)
  heap : Heap

/-- The stack and the stacks set aside have their topmost item first. -/
structure Machine where
  source : Source
  stack : List Value
  marks : List (List Value)
  memo : List (Nat × Value)
  protocol : Nat
  offset : Nat
  /-- The moments so far, latest first, if they are recorded. -/
  history? : Option (List Moment)

abbrev Execution := EStateM Failure Machine

namespace Machine

/-- A machine at the start of an input. -/
def ofReader (reader : Reader) (heap : Heap) (isRecorded : Bool) :
    Machine where
  source := ⟨.unframer reader 0 none, heap⟩
  stack := []
  marks := []
  memo := []
  protocol := 0
  offset := 0
  history? := if isRecorded then some [] else none

/-- The machine before the next pickle of the same input: only the memo is
kept. -/
def restart (machine : Machine) : Machine :=
  { machine with
    source :=
      { machine.source with reader := machine.source.reader.dropFrame }
    stack := []
    marks := []
    protocol := 0
    offset := 0 }

def heap (machine : Machine) : Heap :=
  machine.source.heap

def history (machine : Machine) : List Moment :=
  (machine.history?.getD []).reverse

/-- The machine after an opcode, as it can be seen. -/
def moment (machine : Machine) (opcode : Opcode) : Moment where
  opcode := opcode
  offset := machine.offset
  protocol := machine.protocol
  stack := machine.stack
  marks := machine.marks
  memo := machine.memo
  heap := machine.heap

/-- Adds the present moment to the history, if it is recorded. -/
def record (machine : Machine) (opcode : Opcode) : Machine :=
  { machine with
    history? := machine.history?.map (machine.moment opcode :: ·) }

end Machine

namespace Memo

/-- Binds a slot; a slot that is already bound keeps its place. -/
def insert (slot : Nat) (value : Value) :
    List (Nat × Value) → List (Nat × Value)
  | [] => [(slot, value)]
  | (bound, old) :: rest =>
      if bound = slot then (bound, value) :: rest
      else (bound, old) :: insert slot value rest

/-- Puts a value in the place of an object. -/
def replace (address : Address) (value : Value)
    (memo : List (Nat × Value)) : List (Nat × Value) :=
  memo.map fun (slot, bound) =>
    match bound with
    | .object other =>
        (slot, if other = address then value else bound)
    | _ => (slot, bound)

end Memo

namespace Execution

/-! ## Parts of the machine -/

def decoding {α : Type} (action : Decoding α) : Execution α :=
  fun machine =>
    match action machine.source with
    | .ok result source => .ok result { machine with source }
    | .error failure source => .error failure { machine with source }

def reject {α : Type} (cause : Cause) : Execution α :=
  throw (.ofCause cause)

def heap : Execution Heap := do
  return (← get).heap

/-! ## The stack -/

def push (value : Value) : Execution Unit :=
  modify fun machine => { machine with stack := value :: machine.stack }

def pushNew (object : Object) : Execution Unit := do
  push (← decoding (Decoding.alloc object))

def pop : Execution Value := do
  let machine ← get
  match machine.stack with
  | [] => reject .underflow
  | top :: rest => do
      set { machine with stack := rest }
      return top

def peek : Execution Value := do
  match (← get).stack with
  | [] => reject .underflow
  | top :: _ => return top

/-- Takes the topmost values; the result has the topmost one last. -/
def popMany (count : Nat) : Execution (List Value) := do
  let machine ← get
  if machine.stack.length < count then
    reject .underflow
  else do
    set { machine with stack := machine.stack.drop count }
    return (machine.stack.take count).reverse

def replaceTop (value : Value) : Execution Unit := do
  let _ ← pop
  push value

/-! ## Marks -/

def mark : Execution Unit :=
  modify fun machine =>
    { machine with stack := [], marks := machine.stack :: machine.marks }

/-- Takes the values above the last mark, the topmost one last. -/
def popMark : Execution (List Value) := do
  let machine ← get
  match machine.marks with
  | [] => reject .missingMark
  | stack :: marks => do
      set { machine with stack, marks }
      return machine.stack.reverse

/-! ## The memo -/

/-- The value in a slot. The number of a missing slot must be short enough to
be reported. -/
def memoGet (slot : Int) : Execution Value := do
  let memo := (← get).memo
  match if slot < 0 then none else memo.lookup slot.toNat with
  | some value => return value
  | none =>
      if slot.natAbs < 10 ^ Integer.maxDecimalDigits then
        reject (.missingSlot slot)
      else
        throw (.refused .badValue)

def memoPut (slot : Nat) : Execution Unit := do
  let value ← peek
  modify fun machine =>
    { machine with memo := Memo.insert slot value machine.memo }

end Execution

end PickleGraph
