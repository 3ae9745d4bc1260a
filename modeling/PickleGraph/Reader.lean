import PickleGraph.Failure

/-!
# Readers

A reader hands out the bytes of an input in order. A file gives as many bytes
as it has. A cursor counts the bytes it has handed out and gives either what was
asked for or a failure. An unframer is a cursor that can also hold a frame, a
stretch of the input that has been read ahead. Readers stand on each other, so
a pickle inside another one is read through the reader of the outer one.

A reader is returned after a failure too, because decoding may go on with it.
-/

namespace PickleGraph

/-- What is left of a frame, where it started, and how much of it was read. -/
structure Frame where
  rest : Bytes
  start : Nat
  consumed : Nat
  deriving Repr

inductive Reader
  /-- `ending` is met by reading past the last byte. -/
  | file (rest : Bytes) (offset : Nat) (ending : Option SourceFault)
  | cursor (below : Reader) (position : Nat)
  | unframer (below : Reader) (position : Nat) (frame : Option Frame)
  deriving Repr, Inhabited

abbrev Reading := EStateM Failure Reader

namespace Frame

/-- The offset of the next byte. -/
def tell (frame : Frame) : Nat :=
  frame.start + frame.consumed

/-- Moves past bytes at the head of a frame. -/
def skip (frame : Frame) (count : Nat) : Frame :=
  { frame with
    rest := frame.rest.drop count
    consumed := frame.consumed + count }

end Frame

namespace Reader

/-! ## Places -/

def ofBytes (content : Bytes) : Reader :=
  .file content 0 none

/-- The offset of the next byte, for readers that know it. -/
def tell? : Reader → Option Nat
  | file _ offset _ => some offset
  | cursor .. => none
  | unframer _ position none => some position
  | unframer _ _ (some frame) => some frame.tell

/-- How many bytes have been taken from below. -/
def position : Reader → Nat
  | file _ offset _ => offset
  | cursor _ position => position
  | unframer _ position _ => position

def isFramed : Reader → Bool
  | unframer _ _ (some _) => true
  | _ => false

def dropFrame : Reader → Reader
  | unframer below position _ => unframer below position none
  | reader => reader

/-! ## Reading bytes -/

/-- The number of bytes from which on a count is out of range. -/
def countLimit : Int := 2 ^ 63

/-- The result of a cursor that was asked for `wanted` bytes, where `rebuild`
puts the cursor back above what is below it. -/
def exactly
    (wanted position : Nat) (rebuild : Reader → Nat → Reader) :
    EStateM.Result Failure Reader Bytes →
      EStateM.Result Failure Reader Bytes
  | .ok data below =>
      if data.length < wanted then
        .error (.defect (.truncated wanted data.length)
          (some (position + data.length))) (rebuild below position)
      else
        .ok data (rebuild below (position + wanted))
  | .error failure below => .error failure (rebuild below position)

/-- Asks a file for bytes; a negative count asks for all. -/
def readFile
    (count : Int) (rest : Bytes) (offset : Nat)
    (ending : Option SourceFault) :
    EStateM.Result Failure Reader Bytes :=
  if countLimit ≤ count then
    .error (.refused .outOfRange) (file rest offset ending)
  else
    let wanted := if count < 0 then rest.length else count.toNat
    let data := rest.take wanted
    let after := file (rest.drop wanted) (offset + data.length) ending
    match ending with
    | none => .ok data after
    | some fault =>
        if count < 0 ∨ data.length < wanted then
          .error (.source fault) after
        else
          .ok data after

def read (count : Int) (reader : Reader) :
    EStateM.Result Failure Reader Bytes :=
  match reader with
  | file rest offset ending => readFile count rest offset ending
  | cursor below position =>
      if count < 0 then
        .error (.defect (.negativeRead count) (some position)) reader
      else
        exactly count.toNat position cursor (below.read count)
  | unframer below position none =>
      if count < 0 then
        .error (.defect (.negativeRead count) (some position)) reader
      else
        exactly count.toNat position (unframer · · none) (below.read count)
  | unframer below position (some frame) =>
      if count < -countLimit ∨ countLimit ≤ count then
        .error (.refused .outOfRange) reader
      else
        let data :=
          if count < 0 then frame.rest else frame.rest.take count.toNat
        let advanced := frame.skip data.length
        if data.isEmpty && count != 0 then
          if count < 0 then
            .error (.defect (.negativeRead count) (some position))
              (unframer below position none)
          else
            exactly count.toNat position (unframer · · none)
              (below.read count)
        else if data.length < count then
          .error (.defect .frameExhausted (some advanced.tell))
            (unframer below position (some advanced))
        else
          .ok data (unframer below position (some advanced))

/-- Fills a buffer. The result is how many bytes were asked for and what the
buffer holds then. -/
def readInto (buffer : Bytes) (reader : Reader) :
    EStateM.Result Failure Reader (Nat × Bytes) :=
  match reader.read buffer.length with
  | .ok data after => .ok (data.length, data) after
  | .error failure after => .error failure after

/-! ## Reading lines -/

/-- Everything up to and including the first newline, and what follows. -/
def splitLine : Bytes → Bytes × Bytes
  | [] => ([], [])
  | byte :: rest =>
      if byte = 0x0A then
        ([byte], rest)
      else
        let (line, after) := splitLine rest
        (byte :: line, after)

def endsLine (line : Bytes) : Bool :=
  line.getLast? == some 0x0A

/-- The result of a cursor that was asked for a line. -/
def wholeLine
    (position : Nat) (rebuild : Reader → Nat → Reader) :
    EStateM.Result Failure Reader Bytes →
      EStateM.Result Failure Reader Bytes
  | .ok data below =>
      if endsLine data then
        .ok data (rebuild below (position + data.length))
      else
        .error (.defect .truncatedLine (some (position + data.length)))
          (rebuild below position)
  | .error failure below => .error failure (rebuild below position)

def readLine (reader : Reader) : EStateM.Result Failure Reader Bytes :=
  match reader with
  | file rest offset ending =>
      let (line, after) := splitLine rest
      let reader := file after (offset + line.length) ending
      match ending with
      | some fault =>
          if endsLine line then .ok line reader
          else .error (.source fault) reader
      | none => .ok line reader
  | cursor below position =>
      wholeLine position cursor below.readLine
  | unframer below position none =>
      wholeLine position (unframer · · none) below.readLine
  | unframer below position (some frame) =>
      let (line, _) := splitLine frame.rest
      let advanced := frame.skip line.length
      if line.isEmpty then
        wholeLine position (unframer · · none) below.readLine
      else if endsLine line then
        .ok line (unframer below position (some advanced))
      else
        .error (.defect .frameExhausted (some advanced.tell))
          (unframer below position (some advanced))

/-! ## Frames -/

/-- Reads the next `size` bytes into a frame. The current frame must have been
read to its end. -/
def openFrame (size : Int) (reader : Reader) :
    EStateM.Result Failure Reader Unit :=
  match reader with
  | unframer below position frame =>
      match frame.filter (!·.rest.isEmpty) with
      | some unread =>
          let spent := unread.skip unread.rest.length
          .error (.defect .frameOverlap (some spent.tell))
            (unframer below position (some spent))
      | none =>
          match (cursor below position).read size with
          | .ok data (cursor below after) =>
              .ok () (unframer below after (some ⟨data, position, 0⟩))
          | .ok _ after => .ok () after
          | .error failure after =>
              let kept := frame.map ({ · with start := position })
              match after with
              | cursor below after =>
                  .error failure (unframer below after kept)
              | after => .error failure after
  | _ => .ok () reader

end Reader

end PickleGraph
