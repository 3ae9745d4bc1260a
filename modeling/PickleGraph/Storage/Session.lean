import PickleGraph.Storage.Basic

/-!
# Storages in use

A storage lends one stream at a time. The stream must be closed before another
one is opened. Decoding opens a stream and closes what the storage has lent,
however it ends.
-/

namespace PickleGraph

structure Stream where
  reader : Reader
  isOpen : Bool := true
  /-- Whether every negative count asks for all octets. -/
  isLenient : Bool
  deriving Repr

/-- A storage with the streams that it has opened so far, in order, and the
number of the one that it has lent. -/
structure Session where
  storage : Storage
  streams : Array Stream := #[]
  lent? : Option Nat := none

abbrev Using := ReaderT Files (EStateM Failure Session)

/-- Whether the streams of a medium take every negative count. -/
def Medium.isLenient : Medium → Bool
  | .memory _ => true
  | .unknown | .file | .compressed _ => false

namespace Session

def openStream : Using Nat := do
  let session ← get
  let storage := session.storage
  if session.lent?.isSome then
    throw (Failure.ofCause (.alreadyOpen storage.describe))
  match storage.content (← read) with
  | .error failure => throw failure
  | .ok content =>
      let number := session.streams.size
      let stream : Stream :=
        { reader := content.reader
          isLenient := storage.medium.isLenient }
      set { session with
        streams := session.streams.push stream
        lent? := some number }
      return number

def close : Using Unit :=
  modify fun session =>
    match session.lent? with
    | none => session
    | some number =>
        { session with
          streams := session.streams.modify number fun stream =>
            { stream with isOpen := false }
          lent? := none }

def decode (options : Options) : Using (Value × Heap) := do
  try
    let _ ← openStream
    let session ← get
    match session.storage.decode (← read) options with
    | .ok result => return result
    | .error failure => throw failure
  finally
    close

def sibling (name : Text) : Using Bytes := do
  match (← get).storage.sibling (← read) name with
  | .ok content => return content
  | .error failure => throw failure

/-! ## Streams -/

/-- Uses an open stream. -/
def onStream {α : Type} (number : Nat) (action : Stream → Reading α) :
    Using α := do
  let session ← get
  match session.streams[number]? with
  | none => throw (.refused .missingAttribute)
  | some stream => do
      if !stream.isOpen then
        throw (.refused .badValue)
      let put (reader : Reader) : Using Unit :=
        set { session with
          streams := session.streams.set! number { stream with reader } }
      match action stream stream.reader with
      | .ok result reader => do
          put reader
          return result
      | .error failure reader => do
          put reader
          throw failure

/-- Refuses counts that a stream does not take. -/
def checkCount (stream : Stream) (count : Int) : Reading Unit :=
  if count < -Reader.countLimit ∨ Reader.countLimit ≤ count then
    throw (.refused .outOfRange)
  else if count < -1 ∧ !stream.isLenient then
    throw (.refused .badValue)
  else
    pure ()

def readStream (number : Nat) (count : Int) : Using Bytes :=
  onStream number fun stream => do
    checkCount stream count
    Reader.read count

def readStreamLine (number : Nat) : Using Bytes :=
  onStream number fun _ => Reader.readLine

def isClosed (session : Session) (number : Nat) : Bool :=
  session.streams[number]?.all (!·.isOpen)

end Session

end PickleGraph
