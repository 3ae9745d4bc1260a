import PickleGraph.Bytes

/-!
# Compressed data

A decompressor moves along a tape. It takes octets or bits from what is left of
its input and appends octets to its output. It stops where the input ends too
early or breaks the rules of its format, and what it has put out by then is
kept.
-/

namespace PickleGraph

namespace Compression

inductive Stop
  | truncated
  | damaged
  deriving DecidableEq, Repr

/-- The input that is left, the bits that are left of the last octet taken from
it, and the output so far. -/
structure Tape where
  rest : Bytes
  bits : UInt8 := 0
  bitCount : Nat := 0
  output : Array UInt8 := #[]

abbrev Unpacking := EStateM Stop Tape

/-! ## Outcomes -/

/-- How compressed data ends: with something after it, too early, or nowhere
because it is damaged. -/
inductive Ending
  | complete (rest : Bytes)
  | truncated
  | damaged
  deriving DecidableEq, Repr

structure Outcome where
  output : Bytes
  ending : Ending
  deriving DecidableEq, Repr

def Ending.ofStop : Stop → Ending
  | .truncated => truncated
  | .damaged => damaged

/-- What an action puts out when it is given an input. -/
def Outcome.of {α : Type} (action : Unpacking α) (content : Bytes) :
    Outcome :=
  match action { rest := content } with
  | .ok _ tape => ⟨tape.output.toList, .complete tape.rest⟩
  | .error stop tape => ⟨tape.output.toList, .ofStop stop⟩

/-! ## Repetition -/

/-- Repeats an action until it says that it is done. The bound is above the
number of rounds that the input allows. -/
def untilDone {σ : Type} :
    (bound : Nat) → EStateM Stop σ Bool → EStateM Stop σ Unit
  | 0, _ => throw .damaged
  | bound + 1, round => fun state =>
      match round state with
      | .ok true after => .ok () after
      | .ok false after => untilDone bound round after
      | .error stop after => .error stop after

def times {σ : Type} :
    Nat → EStateM Stop σ Unit → EStateM Stop σ Unit
  | 0, _ => pure ()
  | count + 1, round => fun state =>
      match round state with
      | .ok _ after => times count round after
      | .error stop after => .error stop after

/-- Refuses what breaks a rule of the format. -/
def require {σ : Type} (rule : Prop) [Decidable rule] :
    EStateM Stop σ Unit :=
  if rule then pure () else throw .damaged

namespace Unpacking

/-! ## Octets -/

def octet : Unpacking UInt8 := fun tape =>
  match tape.rest with
  | [] => .error .truncated tape
  | byte :: rest => .ok byte { tape with rest }

def octets (count : Nat) : Unpacking Bytes := fun tape =>
  if tape.rest.length < count then
    .error .truncated { tape with rest := [] }
  else
    .ok (tape.rest.take count) { tape with rest := tape.rest.drop count }

def numberLE (width : Nat) : Unpacking Nat :=
  return Bytes.toNatLE (← octets width)

def numberBE (width : Nat) : Unpacking Nat :=
  return Bytes.toNatBE (← octets width)

def align : Unpacking Unit :=
  modify fun tape => { tape with bits := 0, bitCount := 0 }

/-! ## Bits -/

/-- Takes an octet for its bits when none are left. -/
def refill : Unpacking Unit := do
  if (← get).bitCount = 0 then
    let bits ← octet
    modify fun tape => { tape with bits, bitCount := 8 }

/-- The next bit, where the least significant bit of an octet comes first. -/
def lowBit : Unpacking Nat := do
  refill
  let bits := (← get).bits
  modify fun tape =>
    { tape with bits := bits >>> 1, bitCount := tape.bitCount - 1 }
  return (bits &&& 1).toNat

/-- The next bit, where the most significant bit of an octet comes first. -/
def highBit : Unpacking Nat := do
  refill
  let bits := (← get).bits
  modify fun tape =>
    { tape with bits := bits <<< 1, bitCount := tape.bitCount - 1 }
  return (bits >>> 7).toNat

def lowBits : (width : Nat) → Unpacking Nat
  | 0 => return 0
  | width + 1 => do
      let bit ← lowBit
      return bit + 2 * (← lowBits width)

def highBits (width : Nat) : Unpacking Nat :=
  (List.range width).foldlM
    (fun number _ => return 2 * number + (← highBit)) 0

/-! ## Output -/

def emit (byte : UInt8) : Unpacking Unit :=
  modify fun tape => { tape with output := tape.output.push byte }

def copyOctet : Unpacking Unit := do
  emit (← octet)

/-- Repeats the octet that stands `distance` places before the end of the
output. -/
def repeatOctet (distance : Nat) : Unpacking Unit :=
  modify fun tape =>
    let byte := tape.output[tape.output.size - distance]?.getD 0
    { tape with output := tape.output.push byte }

end Unpacking

end Compression

end PickleGraph
