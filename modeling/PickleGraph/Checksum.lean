import PickleGraph.Bytes

/-!
# Checksums

Remainders of byte strings as polynomials over the field of two elements, with
the bits of an octet in either order, the pair of sums modulo 65521, and the
secure hash of 256 bits.
-/

namespace PickleGraph

namespace Checksum

/-! ## Cyclic redundancy -/

/-- Takes in one octet, least significant bit first. -/
def reflectedStep (polynomial : Nat) (register : Nat) (byte : UInt8) : Nat :=
  (List.range 8).foldl
    (fun register _ =>
      if register % 2 = 1 then (register >>> 1) ^^^ polynomial
      else register >>> 1)
    (register ^^^ byte.toNat)

/-- The remainder with all bits of the register inverted before and after. -/
def reflected (width polynomial : Nat) (content : Bytes) : Nat :=
  let ones := 2 ^ width - 1
  content.foldl (reflectedStep polynomial) ones ^^^ ones

def crc32 (content : Bytes) : Nat :=
  reflected 32 0xEDB88320 content

def crc64 (content : Bytes) : Nat :=
  reflected 64 0xC96C5795D7870F42 content

/-- Takes in one octet, most significant bit first. -/
def forwardStep (register : Nat) (byte : UInt8) : Nat :=
  (List.range 8).foldl
    (fun register _ =>
      let shifted := 2 * register % 2 ^ 32
      if 2 ^ 31 ≤ register then shifted ^^^ 0x04C11DB7 else shifted)
    (register ^^^ (byte.toNat <<< 24))

def forwardCrc32 (content : Bytes) : Nat :=
  content.foldl forwardStep 0xFFFFFFFF ^^^ 0xFFFFFFFF

/-! ## Sums -/

def adlerModulus : Nat := 65521

/-- The sum of the octets, and the sum of the sums. -/
def adler32 (content : Bytes) : Nat :=
  let (low, high) := content.foldl
    (fun (low, high) byte =>
      let low := (low + byte.toNat) % adlerModulus
      (low, (high + low) % adlerModulus))
    (1, 0)
  high * 2 ^ 16 + low

/-! ## Secure hash -/

namespace Sha256

/-- The greatest number with a power that is not above the bound. -/
def root (degree bound : Nat) : Nat :=
  (List.range 64).foldr
    (fun bit found =>
      let larger := found + 2 ^ bit
      if larger ^ degree ≤ bound then larger else found)
    0

/-- The first 64 primes. -/
def primes : List Nat :=
  (List.range 312).filter fun number =>
    2 ≤ number &&
      (List.range number).all fun factor =>
        factor < 2 || number % factor != 0

/-- The first 32 bits behind the point of the root of a number. -/
def fraction (degree number : Nat) : UInt32 :=
  UInt32.ofNat (root degree (number * 2 ^ (32 * degree)))

def roundConstants : Array UInt32 :=
  (primes.map (fraction 3)).toArray

def start : Array UInt32 :=
  ((primes.take 8).map (fraction 2)).toArray

def rotate (word count : UInt32) : UInt32 :=
  (word >>> count) ||| (word <<< (32 - count))

/-- A block of 16 words, extended to a word for each round. -/
def schedule (block : Array UInt32) : Array UInt32 :=
  (List.range 48).foldl
    (fun words index =>
      let word (place : Nat) : UInt32 := words[index + place]?.getD 0
      let early : UInt32 := word 1
      let late : UInt32 := word 14
      let first : UInt32 := rotate early 7 ^^^ rotate early 18 ^^^
        (early >>> (3 : UInt32))
      let second : UInt32 := rotate late 17 ^^^ rotate late 19 ^^^
        (late >>> (10 : UInt32))
      words.push (word 0 + first + word 9 + second))
    block

/-- One round, from a state and the sum of a constant and a word. -/
def round (state : List UInt32) (summand : UInt32) : List UInt32 :=
  match state with
  | [a, b, c, d, e, f, g, h] =>
      let high : UInt32 := rotate e 6 ^^^ rotate e 11 ^^^ rotate e 25
      let choice : UInt32 := (e &&& f) ^^^ (~~~e &&& g)
      let low : UInt32 := rotate a 2 ^^^ rotate a 13 ^^^ rotate a 22
      let majority : UInt32 := (a &&& b) ^^^ (a &&& c) ^^^ (b &&& c)
      let next : UInt32 := h + high + choice + summand
      [next + low + majority, a, b, c, d + next, e, f, g]
  | state => state

def wordOf (octets : Bytes) : UInt32 :=
  UInt32.ofNat (Bytes.toNatBE octets)

/-- Takes in a block of 64 octets. -/
def step (state : List UInt32) (block : Bytes) : List UInt32 :=
  let words := (List.range 16).map fun index =>
    wordOf ((block.drop (4 * index)).take 4)
  let summands := Array.zipWith (· + ·) (schedule words.toArray)
    roundConstants
  List.zipWith (· + ·) state (summands.foldl round state)

/-- The content with a bit and nulls behind it, and its length in bits. -/
def padded (content : Bytes) : Bytes :=
  let nulls := (119 - content.length % 64) % 64
  content ++ 0x80 :: (List.replicate nulls 0 ++
    (Bytes.ofNatLE 8 (8 * content.length)).reverse)

end Sha256

def sha256 (content : Bytes) : Bytes :=
  let padded := Sha256.padded content
  let state := (List.range (padded.length / 64)).foldl
    (fun (state, rest) _ =>
      (Sha256.step state (rest.take 64), rest.drop 64))
    (Sha256.start.toList, padded)
  state.1.flatMap fun word => (Bytes.ofNatLE 4 word.toNat).reverse

end Checksum

end PickleGraph
