import PickleGraph.Compression.Basic

/-!
# Range codes

A range code writes bits as parts of a range that is split in proportion to
their probabilities. A probability is the chance of a zero in 2048, and it moves
towards each bit that is read.
-/

namespace PickleGraph

namespace Compression

/-- A tape with the range, the place of the code in it, and the
probabilities. -/
structure RangeCode extends Tape where
  range : UInt32 := 0xFFFFFFFF
  code : UInt32 := 0
  probabilities : Array UInt16 := #[]

abbrev RangeUnpacking := EStateM Stop RangeCode

namespace RangeCode

def onTape {α : Type} (action : Unpacking α) : RangeUnpacking α :=
  fun state =>
    match action state.toTape with
    | .ok result tape => .ok result { state with toTape := tape }
    | .error stop tape => .error stop { state with toTape := tape }

instance : MonadLift Unpacking RangeUnpacking where
  monadLift := onTape

def initialProbability : UInt16 := 1024

/-- Starts to read a range code, which begins with a zero. -/
def start : RangeUnpacking Unit := do
  require ((← Unpacking.octet) = 0)
  let code ← Unpacking.numberBE 4
  modify fun state =>
    { state with range := 0xFFFFFFFF, code := UInt32.ofNat code }

/-- Takes in an octet when the range has become narrow. -/
def normalize : RangeUnpacking Unit := do
  if (← get).range < 0x1000000 then
    let byte ← Unpacking.octet
    modify fun state =>
      { state with
        range := state.range <<< 8
        code := state.code <<< 8 ||| byte.toUInt32 }

/-- The next bit, with the probability at an index. -/
def bit (index : Nat) : RangeUnpacking Nat := do
  normalize
  let state ← get
  let probability := state.probabilities[index]?.getD initialProbability
  let bound := (state.range >>> 11) * probability.toUInt32
  if state.code < bound then
    modify fun state =>
      { state with
        range := bound
        probabilities := state.probabilities.setIfInBounds index
          (probability + (2048 - probability) >>> 5) }
    return 0
  else
    modify fun state =>
      { state with
        range := state.range - bound
        code := state.code - bound
        probabilities := state.probabilities.setIfInBounds index
          (probability - probability >>> 5) }
    return 1

/-- The next bit, with even chances that stay so. -/
def evenBit : RangeUnpacking Nat := do
  normalize
  let state ← get
  let half := state.range >>> 1
  let code := state.code - half
  if code >>> 31 = 1 then
    modify fun state => { state with range := half }
    return 0
  else
    modify fun state => { state with range := half, code }
    return 1

def evenBits (width : Nat) : RangeUnpacking Nat :=
  (List.range width).foldlM
    (fun number _ => return 2 * number + (← evenBit)) 0

/-- A number whose most significant bit comes first. The probability of a bit
depends on the bits before it. -/
def tree (base width : Nat) : RangeUnpacking Nat := do
  let node ← (List.range width).foldlM
    (fun node _ => return 2 * node + (← bit (base + node))) 1
  return node - 2 ^ width

/-- A number whose least significant bit comes first. The probability of a bit
depends on the bits before it. -/
def reverseTree (base width : Nat) : RangeUnpacking Nat := do
  let (number, _) ← (List.range width).foldlM
    (fun (number, node) place => do
      let bit ← bit (base + node)
      return (number + bit * 2 ^ place, 2 * node + bit))
    (0, 1)
  return number

def isFinished : RangeUnpacking Bool := do
  return (← get).code = 0

end RangeCode

end Compression

end PickleGraph
