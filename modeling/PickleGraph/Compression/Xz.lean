import PickleGraph.Checksum
import PickleGraph.Compression.Filter
import PickleGraph.Compression.Lzma

/-!
# Xz streams

An xz stream is a sequence of blocks of chunked LZMA data between a header and a
footer. Every block has a header and a check of its output, and an index before
the footer states the sizes of the blocks. Up to three filters of a block are
undone after its data has been unpacked.
-/

namespace PickleGraph

namespace Compression

namespace Xz

open Lzma (LzmaUnpacking)
open Unpacking

/-! ## Chunks -/

/-- What the next chunk may build on. -/
structure Footing where
  hasHistory : Bool := false
  hasParameters : Bool := false

/-- A chunk of LZMA data must take exactly its stated size. -/
def compressedChunk (size packedSize : Nat) : LzmaUnpacking Unit :=
  fun state =>
    let limit := state.output.size + size
    let fits (after : Lzma.State) : Bool :=
      state.rest.length - after.rest.length ≤ packedSize
    match Lzma.data ⟨some limit, .refused⟩ state with
    | .ok _ after =>
        if state.rest.length - after.rest.length = packedSize then
          .ok () after
        else
          .error .damaged after
    | .error stop after =>
        .error (if fits after then stop else .damaged) after

def dropHistory : LzmaUnpacking Unit :=
  modify fun state => { state with historyStart := state.output.size }

def takeParameters : LzmaUnpacking Unit := do
  match Lzma.Parameters.ofOctet? (← octet) with
  | none => throw .damaged
  | some parameters => modify (·.reset parameters)

/-- Reads a chunk of LZMA data. The control octet says what the chunk does not
build on. -/
def lzmaChunk (control : Nat) (footing : Footing) :
    LzmaUnpacking Footing := do
  require (0xC0 ≤ control ∨ footing.hasParameters)
  let size := control % 0x20 * 2 ^ 16 + (← numberBE 2) + 1
  let packedSize := (← numberBE 2) + 1
  if 0xC0 ≤ control then
    takeParameters
  else if 0xA0 ≤ control then
    modify fun state => state.reset state.parameters
  compressedChunk size packedSize
  return { hasHistory := true, hasParameters := true }

def storedChunk (control : Nat) (footing : Footing) :
    LzmaUnpacking Footing := do
  require (control ≤ 2)
  let size := (← numberBE 2) + 1
  RangeCode.onTape (times size copyOctet)
  return footing

def chunks : (bound : Nat) → Footing → LzmaUnpacking Unit
  | 0, _ => throw .damaged
  | bound + 1, footing => do
      let control := (← octet).toNat
      if control = 0 then
        return ()
      let forgets := 0xE0 ≤ control || control = 1
      require (forgets ∨ footing.hasHistory)
      let footing : Footing :=
        if forgets then { hasHistory := true } else footing
      if forgets then
        dropHistory
      if 0x80 ≤ control then
        chunks bound (← lzmaChunk control footing)
      else
        chunks bound (← storedChunk control footing)

/-! ## Numbers -/

/-- A number in groups of seven bits, least significant group first. The last
group is not zero unless it is the only one. -/
def numberFrom : (bound place : Nat) → Unpacking Nat
  | 0, _ => throw .damaged
  | bound + 1, place => do
      let byte := (← octet).toNat
      let group := byte % 128 * 2 ^ (7 * place)
      if 128 ≤ byte then
        return group + (← numberFrom bound (place + 1))
      else
        require (byte ≠ 0 ∨ place = 0)
        return group

def number : Unpacking Nat :=
  numberFrom 9 0

/-- How many octets fill up a size to a multiple of four. -/
def paddingSize (size : Nat) : Nat :=
  (4 - size % 4) % 4

def padding (size : Nat) : Unpacking Unit := do
  for _ in List.range (paddingSize size) do
    require ((← octet) = 0)

/-! ## Headers -/

/-- How the output of a block is checked. -/
def checkSize (check : Nat) : Nat :=
  if check = 0 then 0 else 4 * 2 ^ ((check - 1) / 3)

/-- The octets of a check that is verified. Other checks are skipped. -/
def expectedCheck? (check : Nat) (output : Bytes) : Option Bytes :=
  match check with
  | 1 => some (Bytes.ofNatLE 4 (Checksum.crc32 output))
  | 4 => some (Bytes.ofNatLE 8 (Checksum.crc64 output))
  | 10 => some (Checksum.sha256 output)
  | _ => none

def signature : Bytes := [0xFD, 0x37, 0x7A, 0x58, 0x5A, 0x00]

def streamHeader : Unpacking Nat := do
  let header ← octets 12
  require (header.take 6 = signature)
  let flags := (header.drop 6).take 2
  require (Bytes.toNatLE (header.drop 8) = Checksum.crc32 flags)
  match flags with
  | [0, check] => do
      require (check < 16)
      return check.toNat
  | _ => throw .damaged

/-- The reach of the history is two or three times a power of two. -/
def reachOf (octet : Nat) : Nat :=
  if octet = 40 then 2 ^ 32 - 1
  else (2 + octet % 2) * 2 ^ (octet / 2 + 11)

/-- A filter by its number and its properties. -/
def filter? (number : Nat) (properties : Bytes) : Option Filter :=
  let branches (architecture : Architecture) : Option Filter :=
    let start := Bytes.toNatLE properties
    if properties.length ≠ 0 ∧ properties.length ≠ 4 ∨
        start % architecture.alignment ≠ 0 then
      none
    else
      some (.branches architecture start)
  match number, properties with
  | 0x03, [distance] => some (.delta (distance.toNat + 1))
  | 0x04, _ => branches .x86
  | 0x05, _ => branches .powerPc
  | 0x06, _ => branches .itanium
  | 0x07, _ => branches .arm
  | 0x08, _ => branches .armThumb
  | 0x09, _ => branches .sparc
  | _, _ => none

/-- Reads the number of a filter and its properties. -/
def filterFlags : Unpacking (Nat × Bytes) := do
  let identifier ← number
  return (identifier, ← octets (← number))

/-- Reads filters before the last one. -/
def filters : (count : Nat) → Unpacking (List Filter)
  | 0 => return []
  | count + 1 => do
      let (identifier, properties) ← filterFlags
      match filter? identifier properties with
      | none => throw .damaged
      | some filter => return filter :: (← filters count)

/-- Reads the last filter, which is always the packing into chunks, and gives
the reach of its history. -/
def packing : Unpacking Nat := do
  match ← filterFlags with
  | (0x21, [reach]) => do
      require (reach.toNat ≤ 40)
      return max (reachOf reach.toNat) 4096
  | _ => throw .damaged

/-- What the header of a block states. -/
structure BlockHeader where
  packedSize : Option Nat
  size : Option Nat
  filters : List Filter
  reach : Nat

/-- Reads the fields of a block header, and the nulls that fill it up. -/
def blockFields : Unpacking BlockHeader := do
  let flags := (← octet).toNat
  require (flags &&& 0x3C = 0)
  let packedSize ←
    if flags.testBit 6 then some <$> number else pure none
  let size ← if flags.testBit 7 then some <$> number else pure none
  let filters ← filters (flags % 4)
  let reach ← packing
  require ((← get).rest.all (· == 0))
  return { packedSize, size, filters, reach }

def blockHeader (first : UInt8) : Unpacking BlockHeader := do
  let header ← octets (4 * first.toNat + 3)
  let size := header.length - 4
  let fields := header.take size
  require
    (Bytes.toNatLE (header.drop size) = Checksum.crc32 (first :: fields))
  match blockFields { rest := fields } with
  | .ok header _ => return header
  | .error .. => throw .damaged

/-! ## Blocks -/

/-- Reads the data of a block, undoes its filters and gives the size of its
packed form. Stated sizes must be right. -/
def blockData (header : BlockHeader) : Unpacking Nat := fun tape =>
  let available := tape.rest.length
  let packed := header.packedSize.getD available
  let start : Lzma.State :=
    { toTape := { tape with rest := tape.rest.take packed }
      reach := header.reach
      historyStart := tape.output.size }
  let isRight (stated : Option Nat) (actual : Nat) : Bool :=
    stated.all (· == actual)
  let finish (isComplete : Bool) (state : Lzma.State) : Tape :=
    let data := state.output.extract tape.output.size state.output.size
    { state.toTape with
      rest := state.rest ++ tape.rest.drop packed
      output :=
        tape.output ++ Filter.undoAll isComplete header.filters data }
  let sizeOf (state : Lzma.State) : Nat :=
    state.output.size - tape.output.size
  match chunks (available + 1) {} start with
  | .ok _ state =>
      let used := min available packed - state.rest.length
      if isRight header.packedSize used &&
          isRight header.size (sizeOf state) then
        .ok used (finish true state)
      else
        .error .damaged (finish true state)
  | .error stop state =>
      let isOver := available > packed || available = packed &&
        header.packedSize.isSome
      let isLong := header.size.any (· < sizeOf state)
      .error (if isOver || isLong then .damaged else stop)
        (finish false state)

/-- The sizes of a block: of its header, packed data and check, and of its
output. -/
structure BlockSizes where
  packed : Nat
  output : Nat
  deriving DecidableEq, Repr

def block (check : Nat) (first : UInt8) : Unpacking BlockSizes := do
  let header ← blockHeader first
  let start := (← get).output.size
  let packed ← blockData header
  padding packed
  let output := (← get).output.toList.drop start
  let stated ← octets (checkSize check)
  require ((expectedCheck? check output).all (· == stated))
  return {
    packed := 4 * first.toNat + 4 + packed + checkSize check
    output := output.length }

/-! ## Index and footer -/

def expect : Bytes → Unpacking Unit
  | [] => return ()
  | byte :: bytes => do
      require ((← octet) = byte)
      expect bytes

def minPacked : Nat := 5

/-- The size of a block in its stream, where blocks are filled up. -/
def BlockSizes.filled (sizes : BlockSizes) : Nat :=
  sizes.packed + paddingSize sizes.packed

/-- Reads the sizes of some blocks, which must not exceed what is left of the
stream and of its output. -/
def records :
    (count filledLeft outputLeft : Nat) → Unpacking (List BlockSizes)
  | 0, _, _ => return []
  | count + 1, filledLeft, outputLeft => do
      let packed ← number
      require (minPacked ≤ packed)
      let sizes : BlockSizes := { packed, output := ← number }
      require (sizes.filled ≤ filledLeft ∧ sizes.output ≤ outputLeft)
      let more ← records count (filledLeft - sizes.filled)
        (outputLeft - sizes.output)
      return sizes :: more

/-- Reads the index, whose first octet has been read, and gives its size. -/
def index (blocks : List BlockSizes) : Unpacking Nat := do
  let before := (← get).rest
  require ((← number) = blocks.length)
  let stated ← records blocks.length
    (blocks.foldl (· + ·.filled) 0) (blocks.foldl (· + ·.output) 0)
  padding (before.length - (← get).rest.length + 1)
  if (← get).rest.isEmpty then
    throw .truncated
  require (stated = blocks)
  let size := before.length - (← get).rest.length
  expect (Bytes.ofNatLE 4 (Checksum.crc32 (0 :: before.take size)))
  return size + 5

def footer (check indexSize : Nat) : Unpacking Unit := do
  let footer ← octets 12
  let fields := (footer.drop 4).take 6
  require (footer.drop 10 = [0x59, 0x5A])
  require (Bytes.toNatLE (footer.take 4) = Checksum.crc32 fields)
  require (4 * (Bytes.toNatLE (fields.take 4) + 1) = indexSize)
  require (fields.drop 4 = [0, UInt8.ofNat check])

/-! ## Streams -/

def blocks (check : Nat) :
    (bound : Nat) → List BlockSizes → Unpacking Unit
  | 0, _ => throw .damaged
  | bound + 1, finished => do
      let first ← octet
      if first = 0 then
        footer check (← index finished.reverse)
      else
        blocks check bound ((← block check first) :: finished)

def stream : Unpacking Unit := do
  let check ← streamHeader
  blocks check ((← get).rest.length + 1) []

end Xz

end Compression

end PickleGraph
