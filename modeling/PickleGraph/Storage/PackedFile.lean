import PickleGraph.Storage.Content

/-!
# Packed files

A packed file is unpacked while it is read. Output that has not been handed out
is kept, and only when nothing is kept are further pieces of the file fed, until
one of them gives some output. A buffer above the file joins what is handed out
until there is as much as was asked for.
-/

namespace PickleGraph

/-- A packed file in use: the pieces that have not been fed yet, the state of the
decompressor, and the output that has not been handed out. -/
structure PackedFile (decompressor : Decompressor) where
  pieces : List Bytes
  state : decompressor.State
  kept : Bytes

namespace PackedFile

variable {decompressor : Decompressor}

/-- Opens a file. The octets at its head are skipped. -/
def opened (decompressor : Decompressor) (skipped : Nat) (file : Bytes) :
    PackedFile decompressor where
  pieces := Decompressor.pieces Decompressor.pieceSize (file.drop skipped)
  state := decompressor.start
  kept := []

/-- Feeds pieces until some output is kept or the decompressor has finished. The
end of the file comes too early before that. -/
def refill (state : decompressor.State) (kept : Bytes) :
    List Bytes → EStateM.Result SourceFault (PackedFile decompressor) Unit
  | [] =>
      if kept.isEmpty && !decompressor.isFinished state then
        .error .unexpectedEnd ⟨[], state, []⟩
      else
        .ok () ⟨[], state, kept⟩
  | piece :: pieces =>
      if kept.isEmpty && !decompressor.isFinished state then
        match decompressor.feed state piece with
        | .error fault => .error fault ⟨pieces, state, []⟩
        | .ok (output, state) => refill state output pieces
      else
        .ok () ⟨piece :: pieces, state, kept⟩

/-- Hands out what is kept, up to some number of octets. Nothing is handed out
only where the decompressor has finished. -/
def readInto (count : Nat) :
    EStateM SourceFault (PackedFile decompressor) Bytes :=
  fun file =>
    match refill file.state file.kept file.pieces with
    | .ok _ file =>
        .ok (file.kept.take count)
          { file with kept := file.kept.drop count }
    | .error fault file => .error fault file

end PackedFile

/-- A packed file below a buffer. -/
structure BufferedFile (decompressor : Decompressor) where
  below : PackedFile decompressor
  buffer : Bytes

namespace BufferedFile

variable {decompressor : Decompressor}

def opened (decompressor : Decompressor) (skipped : Nat) (file : Bytes) :
    BufferedFile decompressor :=
  ⟨.opened decompressor skipped file, []⟩

def bufferSize : Nat := 65536

/-- Adds to a buffer until it holds enough or nothing more is handed out. -/
def gather (wanted : Nat) (buffer : Bytes)
    (below : PackedFile decompressor) :
    EStateM.Result SourceFault (PackedFile decompressor) Bytes :=
  if wanted ≤ buffer.length then
    .ok buffer below
  else
    match below.readInto (max bufferSize wanted) with
    | .error fault below => .error fault below
    | .ok [] below => .ok buffer below
    | .ok (octet :: more) below =>
        gather wanted (buffer ++ octet :: more) below
termination_by wanted - buffer.length
decreasing_by simp only [List.length_append, List.length_cons]; omega

/-- Hands out as many octets as are asked for, or all that are left. What has
been gathered is lost if the file is damaged. -/
def read (count : Nat) :
    EStateM SourceFault (BufferedFile decompressor) Bytes :=
  fun file =>
    match gather count file.buffer file.below with
    | .ok buffer below => .ok (buffer.take count) ⟨below, buffer.drop count⟩
    | .error fault below => .error fault ⟨below, []⟩

end BufferedFile

end PickleGraph
