import PickleGraph.Checksum
import PickleGraph.Compression.PrefixCode

/-!
# Deflated data

Deflated data is a sequence of blocks. A block is stored as it is, or it is a
sequence of literal octets and of repetitions of earlier output, written in two
prefix codes. The codes are fixed or stand at the head of the block.

A zlib stream is deflated data between a header of two octets and a checksum. A
gzip member is deflated data between a header, which may name a file, and a
trailer with a checksum and the size of the output.
-/

namespace PickleGraph

namespace Compression

namespace Deflate

open Unpacking

/-! ## Prefix codes -/

/-- A set of code lengths may leave words unused only if it has at most one
word, of one bit. -/
def isAdmissible (code : PrefixCode) : Bool :=
  match code.spareWords? with
  | none => false
  | some spare => spare = 0 || code.levels.length = 1

/-- The order in which the lengths of the code for lengths are written. -/
def lengthOrder : List Nat :=
  [16, 17, 18, 0, 8, 7, 9, 6, 10, 5, 11, 4, 12, 3, 13, 2, 14, 1, 15]

/-- The code for lengths. If all its words have no length, each of two words of
one bit stands for zero. -/
def lengthCode? (written : List Nat) : Option PrefixCode :=
  let lengths := (List.range 19).map fun symbol =>
    ((lengthOrder.zip written).lookup symbol).getD 0
  let code := PrefixCode.ofLengths lengths
  if lengths.all (· == 0) then some ⟨[#[0, 0]]⟩
  else if code.spareWords? = some 0 then some code
  else none

/-- Reads the next code lengths, and puts them after the ones known so far. -/
def moreLengths (code : PrefixCode) (wanted : Nat) (known : List Nat) :
    Unpacking (List Nat) := do
  let symbol ← code.symbol lowBit
  let more ←
    match symbol with
    | 16 => do
        let count := 3 + (← lowBits 2)
        match known.getLast? with
        | some last => pure (List.replicate count last)
        | none => throw .damaged
    | 17 => pure (List.replicate (3 + (← lowBits 3)) 0)
    | 18 => pure (List.replicate (11 + (← lowBits 7)) 0)
    | length => pure [length]
  require (known.length + more.length ≤ wanted)
  return known ++ more

def codeLengths (code : PrefixCode) (wanted : Nat) :
    (bound : Nat) → (known : List Nat) → Unpacking (List Nat)
  | 0, known => return known
  | bound + 1, known => do
      if known.length < wanted then
        codeLengths code wanted bound (← moreLengths code wanted known)
      else
        return known

/-- The codes for literals and lengths, and for distances. -/
structure Codes where
  main : PrefixCode
  distance : PrefixCode

def fixedCodes : Codes where
  main := PrefixCode.ofLengths
    (List.replicate 144 8 ++ List.replicate 112 9 ++
      List.replicate 24 7 ++ List.replicate 8 8)
  distance := PrefixCode.ofLengths (List.replicate 32 5)

def blockEnd : Nat := 256

def statedCodes : Unpacking Codes := do
  let mainCount := 257 + (← lowBits 5)
  let distanceCount := 1 + (← lowBits 5)
  let lengthCount := 4 + (← lowBits 4)
  require (mainCount ≤ 286 ∧ distanceCount ≤ 30)
  let written ← (List.range lengthCount).mapM fun _ => lowBits 3
  match lengthCode? written with
  | none => throw .damaged
  | some code => do
      let wanted := mainCount + distanceCount
      let lengths ← codeLengths code wanted wanted []
      let main := PrefixCode.ofLengths (lengths.take mainCount)
      let distance := PrefixCode.ofLengths (lengths.drop mainCount)
      require ((lengths[blockEnd]?).getD 0 ≠ 0)
      require (isAdmissible main ∧ isAdmissible distance)
      return { main, distance }

/-! ## Symbols -/

/-- The base of symbol `n` in a table where the first symbols step by one and
every `group` symbols after them double the step, and the number of extra
bits. -/
def steps (group symbol : Nat) : Nat × Nat :=
  if symbol < 2 * group then
    (symbol, 0)
  else
    let extra := symbol / group - 1
    ((group + symbol % group) * 2 ^ extra, extra)

def repetitionLength (symbol : Nat) : Unpacking Nat := do
  require (symbol ≤ 285)
  if symbol = 285 then
    return 258
  let (base, extra) := steps 4 (symbol - 257)
  return 3 + base + (← lowBits extra)

def repetitionDistance (symbol : Nat) : Unpacking Nat := do
  require (symbol ≤ 29)
  let (base, extra) := steps 2 symbol
  return 1 + base + (← lowBits extra)

/-- Reads one literal or repetition, and says whether the block ends. -/
def element (codes : Codes) : Unpacking Bool := do
  let symbol ← codes.main.symbol lowBit
  if symbol < blockEnd then
    emit (UInt8.ofNat symbol)
    return false
  else if symbol = blockEnd then
    return true
  else
    let length ← repetitionLength symbol
    let distance ← repetitionDistance (← codes.distance.symbol lowBit)
    require (distance ≤ (← get).output.size)
    times length (repeatOctet distance)
    return false

/-! ## Blocks -/

/-- The number of bits that are left, plus one. -/
def roundBound : Unpacking Nat := do
  return 8 * (← get).rest.length + 9

/-- A stored block states its length twice, the second time inverted. -/
def storedBlock : Unpacking Unit := do
  align
  let length ← numberLE 2
  let inverse ← numberLE 2
  require (length + inverse = 0xFFFF)
  times length copyOctet

def block : Unpacking Bool := do
  let isLast := (← lowBit) = 1
  match ← lowBits 2 with
  | 0 => storedBlock
  | 1 => untilDone (← roundBound) (element fixedCodes)
  | 2 =>
      let codes ← statedCodes
      untilDone (← roundBound) (element codes)
  | _ => throw .damaged
  return isLast

/-- Reads all blocks. What is left of the last octet is dropped. -/
def blocks : Unpacking Unit := do
  untilDone (← roundBound) block
  align

end Deflate

/-! ## Zlib streams -/

namespace Zlib

open Unpacking

/-- The method is deflation with a window of at most `2 ^ 15` octets, and the
header is a multiple of 31. A stream that builds on a preset dictionary cannot
be read, for there is none. -/
def header : Unpacking Unit := do
  let method ← octet
  let flags ← octet
  require ((method.toNat * 256 + flags.toNat) % 31 = 0)
  require (method.toNat % 16 = 8 ∧ method.toNat / 16 ≤ 7)
  if flags &&& 0x20 ≠ 0 then
    let _ ← octets 4
    throw .damaged

def stream : Unpacking Unit := do
  header
  Deflate.blocks
  let stated ← numberBE 4
  require (stated = Checksum.adler32 (← get).output.toList)

end Zlib

/-! ## Gzip members -/

namespace Gzip

open Unpacking

/-- Skips a text and the null after it, or all that is left. -/
def skipText : Unpacking Unit :=
  modify fun tape =>
    { tape with rest := (tape.rest.dropWhile (· ≠ 0)).drop 1 }

def hasFlag (flags : UInt8) (index : Nat) : Bool :=
  flags.toNat.testBit index

def header : Unpacking Unit := do
  -- a lone octet is no signature
  if (← get).rest.length = 1 then
    throw .damaged
  require ((← octets 2) = [0x1F, 0x8B])
  match ← octets 8 with
  | method :: flags :: _ => do
      require (method = 8)
      if hasFlag flags 2 then
        let _ ← octets (← numberLE 2)
      if hasFlag flags 3 then
        skipText
      if hasFlag flags 4 then
        skipText
      if hasFlag flags 1 then
        let _ ← octets 2
  | _ => throw .damaged

def trailer (output : Bytes) : Unpacking Unit := do
  let checksum ← numberLE 4
  let size ← numberLE 4
  require (checksum = Checksum.crc32 output)
  require (size = output.length % 2 ^ 32)

def padding : Unpacking Unit :=
  modify fun tape => { tape with rest := tape.rest.dropWhile (· == 0) }

end Gzip

end Compression

end PickleGraph
