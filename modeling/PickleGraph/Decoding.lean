import PickleGraph.Reader
import PickleGraph.Value

/-!
# Decoding

To decode is to take bytes from a reader and to build objects in a heap. What
has been read and built stays so when a decode fails.
-/

namespace PickleGraph

structure Source where
  reader : Reader
  heap : Heap

abbrev Decoding := EStateM Failure Source

namespace Decoding

/-- Fails with a defect at an offset, if the offset is known. -/
def fail {α : Type} (cause : Cause) (offset : Option Nat) : Decoding α :=
  throw (.defect cause offset)

/-- Fails with a defect whose place is not known yet. -/
def reject {α : Type} (cause : Cause) : Decoding α :=
  fail cause none

def tell? : Decoding (Option Nat) := do
  return (← get).reader.tell?

def heap : Decoding Heap := do
  return (← get).heap

/-! ## Using the parts -/

def reading {α : Type} (action : Reading α) : Decoding α := fun source =>
  match action source.reader with
  | .ok result reader => .ok result { source with reader }
  | .error failure reader => .error failure { source with reader }

/-- A question about the heap, which may be refused. -/
def ask {α : Type} (answer : Heap → Except Refusal α) : Decoding α :=
  fun source =>
    match answer source.heap with
    | .ok result => .ok result source
    | .error refusal => .error (.refused refusal) source

/-- A question about the heap, which may fail. -/
def query {α : Type} (answer : Heap → Except Failure α) : Decoding α :=
  fun source =>
    match answer source.heap with
    | .ok result => .ok result source
    | .error failure => .error failure source

/-- A change of the heap, which may fail. -/
def build {α : Type} (change : Heap → Except Failure (α × Heap)) :
    Decoding α :=
  fun source =>
    match change source.heap with
    | .ok (result, heap) => .ok result { source with heap }
    | .error failure => .error failure source

/-- A change of the heap, which may be refused. -/
def make {α : Type} (change : Heap → Except Refusal (α × Heap)) :
    Decoding α :=
  build fun heap => liftM (change heap)

def alloc (object : Object) : Decoding Value := fun source =>
  let (value, heap) := source.heap.alloc object
  .ok value { source with heap }

def setObject (address : Address) (object : Object) : Decoding Unit :=
  modify fun source =>
    { source with heap := source.heap.set address object }

def mapFailure {α : Type} (change : Failure → Failure)
    (action : Decoding α) : Decoding α := fun source =>
  match action source with
  | .ok result after => .ok result after
  | .error failure after => .error (change failure) after

/-- Runs an action on a reader of its own. -/
def onReader {α : Type} (reader : Reader) (action : Decoding α) :
    Decoding α := fun source =>
  match action { source with reader } with
  | .ok result after => .ok result { after with reader := source.reader }
  | .error failure after =>
      .error failure { after with reader := source.reader }

/-! ## Reading -/

def read (count : Nat) : Decoding Bytes :=
  reading (Reader.read count)

def readLine : Decoding Bytes :=
  reading Reader.readLine

end Decoding

end PickleGraph
