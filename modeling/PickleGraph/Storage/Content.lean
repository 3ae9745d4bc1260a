import PickleGraph.Compression.Bzip2
import PickleGraph.Compression.Deflate
import PickleGraph.Compression.Xz
import PickleGraph.Reader

/-!
# Contents of byte sources

A content is what a byte source hands out when it is read to its end: octets,
and the fault that is met by reading past them, if any. Compressed files are
unpacked piece by piece, so what comes before a damaged piece is still handed
out.
-/

namespace PickleGraph

open Compression (Ending Outcome)

structure Content where
  octets : Bytes
  ending : Option SourceFault
  deriving DecidableEq, Repr

namespace Content

def ofBytes (octets : Bytes) : Content :=
  ⟨octets, none⟩

/-- A content that hands out some octets first. -/
def after (octets : Bytes) (content : Content) : Content :=
  { content with octets := octets ++ content.octets }

def reader (content : Content) : Reader :=
  .file content.octets 0 content.ending

def isFaulty (content : Content) : Bool :=
  content.octets.isEmpty && content.ending.isSome

end Content

/-! ## Feeding pieces -/

/-- A decompressor that is fed its input in pieces and may hold output back. -/
structure Decompressor where
  State : Type
  start : State
  feed : State → Bytes → Except SourceFault (Bytes × State)
  isFinished : State → Bool

namespace Decompressor

/-- Feeds pieces until the decompressor has finished. Pieces after that are left
alone. -/
def drain (decompressor : Decompressor) :
    decompressor.State → List Bytes → Content
  | state, [] =>
      ⟨[], if decompressor.isFinished state then none
        else some .unexpectedEnd⟩
  | state, piece :: pieces =>
      if decompressor.isFinished state then
        .ofBytes []
      else
        match decompressor.feed state piece with
        | .error fault => ⟨[], some fault⟩
        | .ok (output, state) => (drain decompressor state pieces).after output

/-- All input so far, and how much output of it was handed out. -/
structure Intake where
  input : Bytes := []
  given : Nat := 0
  isFinished : Bool := false

/-- The decompressor that unpacks all input so far with every piece. -/
def ofOutcome (unpack : Bytes → Outcome) (fault : SourceFault) :
    Decompressor where
  State := Intake
  start := {}
  feed intake piece :=
    let input := intake.input ++ piece
    let outcome := unpack input
    let output := outcome.output.drop intake.given
    let after (isFinished : Bool) : Intake :=
      { input, given := outcome.output.length, isFinished }
    match outcome.ending with
    | .damaged => .error fault
    | .truncated => .ok (output, after false)
    | .complete _ => .ok (output, after true)
  isFinished intake := intake.isFinished

def zlib : Decompressor :=
  .ofOutcome (Outcome.of Compression.Zlib.stream) .damagedDeflate

/-- The pieces of a file, all but the last of one size. -/
def pieces (size : Nat) (content : Bytes) : List Bytes :=
  (List.range ((content.length + size - 1) / size)).map fun index =>
    (content.drop (index * size)).take size

def pieceSize : Nat := 65536

def content (decompressor : Decompressor) (file : Bytes) : Content :=
  decompressor.drain decompressor.start (pieces pieceSize file)

end Decompressor

namespace Content

def ofZlib : Bytes → Content :=
  Decompressor.zlib.content

/-! ## Sequences of members -/

def blockSize : Nat := 8192

/-- What is handed out before a damaged place. The block of output that meets
the damage is lost. -/
def beforeDamage (output : Bytes) : Bytes :=
  output.take ((output.length - 1) / blockSize * blockSize)

/-- The content of members that follow another one. What does not even begin as
a member is ignored. -/
def ofFurtherMembers (unpack : Bytes → Outcome) (fault : SourceFault) :
    (bound : Nat) → Bytes → Content
  | 0, _ => ofBytes []
  | _, [] => ofBytes []
  | bound + 1, file =>
      let outcome := unpack file
      match outcome.ending with
      | .complete rest =>
          (ofFurtherMembers unpack fault bound rest).after outcome.output
      | .truncated => ⟨outcome.output, some .unexpectedEnd⟩
      | .damaged =>
          let kept := beforeDamage outcome.output
          ⟨kept, if kept.isEmpty then none else some fault⟩

/-- The content of one or more members, one after the other. -/
def ofMembers (unpack : Bytes → Outcome) (fault : SourceFault)
    (file : Bytes) : Content :=
  let outcome := unpack file
  match outcome.ending with
  | .complete rest =>
      (ofFurtherMembers unpack fault file.length rest).after outcome.output
  | .truncated => ⟨outcome.output, some .unexpectedEnd⟩
  | .damaged => ⟨beforeDamage outcome.output, some fault⟩

def ofBzip2 : Bytes → Content :=
  ofMembers (Outcome.of Compression.Bzip2.stream) .damaged

def ofLzma : Bytes → Content :=
  ofMembers (Compression.Lzma.outcome Compression.Lzma.stream) .damagedLzma

def ofXz : Bytes → Content :=
  ofMembers (Outcome.of Compression.Xz.stream) .damagedLzma

/-! ## Gzip -/

/-- The fault of a header or trailer that breaks off. -/
def framingFault : Compression.Stop → SourceFault
  | .truncated => .unexpectedEnd
  | .damaged => .damagedGzip

/-- The content of gzip members up to the end of the file. The output of a
member is handed out before its trailer is checked. -/
def ofGzipMembers : (bound : Nat) → Bytes → Content
  | 0, _ => ofBytes []
  | _, [] => ofBytes []
  | bound + 1, file =>
      match Compression.Gzip.header { rest := file } with
      | .error stop _ => ⟨[], some (framingFault stop)⟩
      | .ok _ tape =>
          let outcome := Outcome.of Compression.Deflate.blocks tape.rest
          let output := outcome.output
          match outcome.ending with
          | .truncated => ⟨output, some .unexpectedEnd⟩
          | .damaged => ⟨beforeDamage output, some .damagedDeflate⟩
          | .complete rest =>
              let closing := do
                Compression.Gzip.trailer output
                Compression.Gzip.padding
              match closing { rest } with
              | .error stop _ => ⟨output, some (framingFault stop)⟩
              | .ok _ tape => (ofGzipMembers bound tape.rest).after output

def ofGzip (file : Bytes) : Content :=
  ofGzipMembers (file.length + 1) file

end Content

end PickleGraph
