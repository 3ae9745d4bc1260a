import PickleGraph.Compression.RangeCode

/-!
# LZMA data

LZMA data is a sequence of literal octets and of repetitions of earlier output
in a range code. The distances of the last four repetitions are remembered, and
the probabilities depend on the kinds of the last elements and on the place in
the output.
-/

namespace PickleGraph

namespace Compression

namespace Lzma

/-! ## Parameters -/

/-- How many bits of the octet before a literal and of the place in the output
choose its probabilities, and how many bits of the place choose those of the
kinds of elements. -/
structure Parameters where
  contextBits : Nat := 3
  placeBits : Nat := 0
  kindBits : Nat := 2
  deriving Repr

/-- Parameters are written as one number, and the first two must not exceed
four together. -/
def Parameters.ofOctet? (octet : UInt8) : Option Parameters :=
  let number := octet.toNat
  let parameters : Parameters :=
    ⟨number % 9, number / 9 % 5, number / 45⟩
  if number < 225 ∧ parameters.contextBits + parameters.placeBits ≤ 4 then
    some parameters
  else
    none

/-! ## The layout of the probabilities -/

def isRepetitionBase : Nat := 192
def isAgainBase : Nat := 204
def isSecondBase : Nat := 216
def isThirdBase : Nat := 228
def isLongBase : Nat := 240
def slotBase : Nat := 432
def distanceBase : Nat := 688
def alignBase : Nat := 816
def lengthBase : Nat := 832
def againLengthBase : Nat := 1346
def literalBase : Nat := 1860
def literalSize : Nat := 768

def Parameters.probabilityCount (parameters : Parameters) : Nat :=
  literalBase +
    literalSize * 2 ^ (parameters.contextBits + parameters.placeBits)

/-! ## State -/

/-- The parameters, the kinds of the last elements as a number below twelve, the
remembered distances, where the history begins in the output, and how far it
reaches back. Distances count from zero. -/
structure State extends RangeCode where
  parameters : Parameters := {}
  kinds : Nat := 0
  first : Nat := 0
  second : Nat := 0
  third : Nat := 0
  fourth : Nat := 0
  historyStart : Nat := 0
  reach : Nat

abbrev LzmaUnpacking := EStateM Stop State

/-- An action on the range code alone. -/
def onCode {α : Type} (action : RangeUnpacking α) : LzmaUnpacking α :=
  fun state =>
    match action state.toRangeCode with
    | .ok result code => .ok result { state with toRangeCode := code }
    | .error stop code => .error stop { state with toRangeCode := code }

instance : MonadLift RangeUnpacking LzmaUnpacking where
  monadLift := onCode

instance : MonadLift Unpacking LzmaUnpacking where
  monadLift action := onCode (RangeCode.onTape action)

def State.reset (state : State) (parameters : Parameters) : State :=
  { state with
    parameters
    probabilities :=
      Array.replicate parameters.probabilityCount
        RangeCode.initialProbability
    kinds := 0
    first := 0
    second := 0
    third := 0
    fourth := 0 }

def State.place (state : State) : Nat :=
  state.output.size - state.historyStart

def State.reaches (state : State) (distance : Nat) : Bool :=
  distance < min state.place state.reach

/-- The octet at a distance; null where there is no history. -/
def State.octetAt (state : State) (distance : Nat) : UInt8 :=
  if distance < state.place then
    state.output[state.output.size - distance - 1]?.getD 0
  else
    0

/-- The low bits of the place that choose the probabilities of kinds. -/
def State.kindPlace (state : State) : Nat :=
  state.place % 2 ^ state.parameters.kindBits

/-! ## Literals -/

/-- Kinds below seven follow a literal. -/
def followsLiteral (kinds : Nat) : Bool :=
  kinds < 7

def kindsAfterLiteral (kinds : Nat) : Nat :=
  if kinds < 4 then 0 else if kinds < 10 then kinds - 3 else kinds - 6

/-- Where the probabilities of the next literal begin. -/
def State.literalStart (state : State) : Nat :=
  let parameters := state.parameters
  let low := state.place % 2 ^ parameters.placeBits
  let context :=
    (state.octetAt 0).toNat / 2 ^ (8 - parameters.contextBits)
  literalBase +
    literalSize * (low * 2 ^ parameters.contextBits + context)

/-- Reads a literal beside the octet that a repetition would have put there. As
long as they agree, its bits choose the probabilities too. -/
def matchedLiteral (base : Nat) (expected : Nat) :
    LzmaUnpacking Nat := do
  let (node, _, _) ← (List.range 8).foldlM
    (fun (node, expected, offset) _ => do
      let expected := 2 * expected
      let expectedBit := expected &&& offset
      let bit ← RangeCode.bit (base + offset + expectedBit + node)
      let offset :=
        if bit = 1 then expectedBit else offset - expectedBit
      return (2 * node + bit, expected, offset))
    (1, expected, 0x100)
  return node - 256

def literal : LzmaUnpacking Unit := do
  let state ← get
  let base := state.literalStart
  let byte ←
    if followsLiteral state.kinds then
      RangeCode.tree base 8
    else
      matchedLiteral base (state.octetAt state.first).toNat
  Unpacking.emit (UInt8.ofNat byte)
  modify fun state =>
    { state with kinds := kindsAfterLiteral state.kinds }

/-! ## Repetitions -/

def repetitionLength (base : Nat) : LzmaUnpacking Nat := do
  let place := (← get).kindPlace
  if (← RangeCode.bit base) = 0 then
    return 2 + (← RangeCode.tree (base + 2 + 8 * place) 3)
  else if (← RangeCode.bit (base + 1)) = 0 then
    return 10 + (← RangeCode.tree (base + 130 + 8 * place) 3)
  else
    return 18 + (← RangeCode.tree (base + 258) 8)

/-- The distance of a repetition, whose slot has its two highest bits and its
width. -/
def repetitionDistance (length : Nat) : LzmaUnpacking Nat := do
  let table := min (length - 2) 3
  let slot ← RangeCode.tree (slotBase + 64 * table) 6
  if slot < 4 then
    return slot
  else
    let width := slot / 2 - 1
    let high := (2 + slot % 2) * 2 ^ width
    if slot < 14 then
      return high +
        (← RangeCode.reverseTree (distanceBase + high - slot) width)
    else
      let middle ← RangeCode.evenBits (width - 4)
      return high + 16 * middle + (← RangeCode.reverseTree alignBase 4)

def repeatOutput (distance length : Nat) : LzmaUnpacking Unit :=
  RangeCode.onTape
    (times length (Unpacking.repeatOctet (distance + 1)))

/-- The distance that stands for the end of the data. -/
def endDistance : Nat := 2 ^ 32 - 1

/-- What an element asks to put out. -/
inductive Element
  | literal
  | repetition (distance length : Nat)
  | finish
  deriving Repr

def newRepetition : LzmaUnpacking Element := do
  let length ← repetitionLength lengthBase
  let distance ← repetitionDistance length
  modify fun state =>
    { state with
      kinds := if followsLiteral state.kinds then 7 else 10
      first := distance
      second := state.first
      third := state.second
      fourth := state.third }
  if distance = endDistance then
    return .finish
  else
    require ((← get).reaches distance)
    return .repetition distance length

/-- Brings one of the remembered distances to the front. -/
def chooseRemembered (kinds : Nat) : LzmaUnpacking Unit := do
  if (← RangeCode.bit (isSecondBase + kinds)) = 0 then
    modify fun state =>
      { state with first := state.second, second := state.first }
  else if (← RangeCode.bit (isThirdBase + kinds)) = 0 then
    modify fun state =>
      { state with
        first := state.third
        second := state.first
        third := state.second }
  else
    modify fun state =>
      { state with
        first := state.fourth
        second := state.first
        third := state.second
        fourth := state.third }

def rememberedRepetition : LzmaUnpacking Element := do
  let state ← get
  let kinds := state.kinds
  require (state.reaches 0)
  let isShort ←
    if (← RangeCode.bit (isAgainBase + kinds)) = 0 then
      let index := isLongBase + 16 * kinds + state.kindPlace
      pure ((← RangeCode.bit index) == 0)
    else
      chooseRemembered kinds
      pure false
  if isShort then
    modify fun state =>
      { state with kinds := if followsLiteral kinds then 9 else 11 }
    return .repetition (← get).first 1
  else
    let length ← repetitionLength againLengthBase
    modify fun state =>
      { state with kinds := if followsLiteral kinds then 8 else 11 }
    return .repetition (← get).first length

/-! ## Elements -/

/-- Reads the kind of an element, and all of it but a literal. -/
def element : LzmaUnpacking Element := do
  let state ← get
  let index := 16 * state.kinds + state.kindPlace
  if (← RangeCode.bit index) = 0 then
    return .literal
  else if (← RangeCode.bit (isRepetitionBase + state.kinds)) = 0 then
    newRepetition
  else
    rememberedRepetition

/-- Whether the data must end in a mark, may end in one once its size is
reached, or must not. -/
inductive EndMark
  | required
  | allowed
  | refused
  deriving DecidableEq, Repr

/-- What is known about the size of the output: where it ends, and how. -/
structure Extent where
  limit : Option Nat
  mark : EndMark

def Extent.isOpen (extent : Extent) (size : Nat) : Bool :=
  match extent.limit with
  | none => true
  | some limit => size < limit

/-- Puts out a repetition, which must end within the extent. -/
def Extent.put (extent : Extent) (distance length : Nat) :
    LzmaUnpacking Unit := do
  let size := (← get).output.size
  match extent.limit with
  | none => repeatOutput distance length
  | some limit => do
      repeatOutput distance (min length (limit - size))
      require (size + length ≤ limit)

/-- Reads one element, and says whether the data ends. -/
def round (extent : Extent) : LzmaUnpacking Bool := do
  let isOpen := extent.isOpen (← get).output.size
  if !isOpen then
    RangeCode.normalize
    if ← RangeCode.isFinished then
      return true
    require (extent.mark ≠ .refused)
  match ← element with
  | .literal => do
      literal
      require isOpen
      return false
  | .repetition distance length => do
      extent.put distance length
      return false
  | .finish => do
      require (extent.limit.isNone ∨ !isOpen)
      require (extent.mark ≠ .refused)
      RangeCode.normalize
      require (← RangeCode.isFinished)
      return true

/-- More than the number of elements that one octet can hold. -/
def elementsPerOctet : Nat := 4096

def data (extent : Extent) : LzmaUnpacking Unit := do
  RangeCode.start
  let bound := ((← get).rest.length + 8) * elementsPerOctet
  untilDone bound (round extent)

/-! ## Streams of their own -/

/-- A stream states its parameters, the reach of its history and the size of
its output, if it is known. -/
def stream : LzmaUnpacking Unit := do
  match Parameters.ofOctet? (← Unpacking.octet) with
  | none => throw .damaged
  | some parameters => do
      let reach ← Unpacking.numberLE 4
      let size ← Unpacking.numberLE 8
      modify fun state =>
        { state.reset parameters with reach := max reach 4096 }
      if size = 2 ^ 64 - 1 then
        data ⟨none, .required⟩
      else
        data ⟨some size, .allowed⟩

def outcome {α : Type} (action : LzmaUnpacking α) (content : Bytes) :
    Outcome :=
  Outcome.of
    (fun tape =>
      match action { toTape := tape, reach := 4096 } with
      | .ok result state => .ok result state.toTape
      | .error stop state => .error stop state.toTape)
    content

end Lzma

end Compression

end PickleGraph
