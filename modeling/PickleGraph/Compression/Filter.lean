import PickleGraph.Compression.Basic

/-!
# Filters

A filter changes octets one for one before they are packed. Differences of
octets are undone by adding up the octets at one distance. The targets of
branches in machine code were written as places, and become ways to these places
again. An instruction that reaches beyond the data stays as it is, and its octets
are not settled as long as more data may follow.
-/

namespace PickleGraph

namespace Compression

/-- Data after a filter has been undone, and how many octets at its head no
further data can change. -/
structure Unfiltered where
  octets : Array UInt8
  settled : Nat

namespace Filter

/-! ## Differences -/

/-- Adds to every octet the one that stands `distance` places before it. -/
def undoDelta (distance : Nat) (data : Array UInt8) : Unfiltered where
  octets := data.foldl
    (fun sums difference =>
      let before := if distance ≤ sums.size then
          sums[sums.size - distance]?.getD 0
        else 0
      sums.push (before + difference))
    #[]
  settled := data.size

/-! ## Places -/

/-- How far it is to a target from a place, modulo the size of an address. -/
def wayTo (target place : Nat) : Nat :=
  (target + (2 ^ 32 - place % 2 ^ 32)) % 2 ^ 32

def octetsAt (data : Array UInt8) (index count : Nat) : Bytes :=
  (data.extract index (index + count)).toList

def putAt (data : Array UInt8) (index : Nat) (octets : Bytes) :
    Array UInt8 :=
  (octets.zipIdx index).foldl
    (fun data (octet, index) => data.setIfInBounds index octet) data

/-! ## Instructions of four octets -/

/-- How branches are told among instructions of four octets. Instructions stand
at multiples of `step`, and none but branches are rewritten. -/
structure WordRule where
  isBigEndian : Bool
  step : Nat
  rewrite? : (place word : Nat) → Option Nat

namespace WordRule

def orient (rule : WordRule) (octets : Bytes) : Bytes :=
  if rule.isBigEndian then octets.reverse else octets

/-- Rewrites the branches from an index on. -/
def undoFrom (rule : WordRule) (start : Nat) :
    (steps index : Nat) → Array UInt8 → Unfiltered
  | 0, index, data => ⟨data, index⟩
  | steps + 1, index, data =>
      if data.size < index + 4 then
        ⟨data, index⟩
      else
        let word := Bytes.toNatLE (rule.orient (octetsAt data index 4))
        match rule.rewrite? (start + index) word with
        | none => undoFrom rule start steps (index + rule.step) data
        | some word =>
            let octets := rule.orient (Bytes.ofNatLE 4 word)
            undoFrom rule start steps (index + 4)
              (putAt data index octets)

def undo (rule : WordRule) (start : Nat) (data : Array UInt8) :
    Unfiltered :=
  rule.undoFrom start data.size 0 data

end WordRule

def powerPc : WordRule where
  isBigEndian := true
  step := 4
  rewrite? place word :=
    if word / 2 ^ 26 = 0x12 ∧ word % 4 = 1 then
      let way := wayTo (word % 2 ^ 26 - 1) place
      some (0x12 * 2 ^ 26 + way % 2 ^ 26 + 1)
    else
      none

def arm : WordRule where
  isBigEndian := false
  step := 4
  rewrite? place word :=
    if word / 2 ^ 24 = 0xEB then
      let way := wayTo (4 * (word % 2 ^ 24)) (place + 8)
      some (0xEB * 2 ^ 24 + way / 4 % 2 ^ 24)
    else
      none

/-- A branch is a pair of instructions of two octets, with eleven bits of the
target in each. -/
def armThumb : WordRule where
  isBigEndian := false
  step := 2
  rewrite? place word :=
    let first := word % 2 ^ 16
    let second := word / 2 ^ 16
    if first / 2 ^ 11 = 0x1E ∧ second / 2 ^ 11 = 0x1F then
      let target := first % 2 ^ 11 * 2 ^ 11 + second % 2 ^ 11
      let way := wayTo (2 * target) (place + 4) / 2
      let first := 0x1E * 2 ^ 11 + way / 2 ^ 11 % 2 ^ 11
      let second := 0x1F * 2 ^ 11 + way % 2 ^ 11
      some (first + second * 2 ^ 16)
    else
      none

def sparc : WordRule where
  isBigEndian := true
  step := 4
  rewrite? place word :=
    if word / 2 ^ 22 = 0x100 ∨ word / 2 ^ 22 = 0x1FF then
      let way := wayTo (4 * word) place / 4
      let sign := if way / 2 ^ 22 % 2 = 1 then 0x1FF else 0x100
      some (sign * 2 ^ 22 + way % 2 ^ 22)
    else
      none

/-! ## Bundles of three instructions -/

namespace Itanium

/-- Which slots of a bundle may hold branches, by the template of the
bundle. -/
def branchSlots (template : Nat) : List Nat :=
  match template with
  | 16 | 17 | 24 | 25 | 28 | 29 => [2]
  | 18 | 19 => [1, 2]
  | 22 | 23 => [0, 1, 2]
  | _ => []

/-- Where a target of 21 bits stands in an instruction: the highest bit is apart
from the others. -/
def targetField (target : Nat) : Nat :=
  target % 2 ^ 20 * 2 ^ 13 + target / 2 ^ 20 % 2 * 2 ^ 36

/-- Rewrites a slot of a bundle of 128 bits if it holds a branch. -/
def rewriteSlot (place bundle slot : Nat) : Nat :=
  let unit := 2 ^ (5 + 41 * slot)
  let instruction := bundle / unit % 2 ^ 41
  if instruction / 2 ^ 37 = 5 ∧ instruction / 2 ^ 9 % 2 ^ 3 = 0 then
    let target := instruction / 2 ^ 13 % 2 ^ 20 +
      instruction / 2 ^ 36 % 2 * 2 ^ 20
    let way := wayTo (16 * target) place / 16
    bundle - targetField target * unit + targetField way * unit
  else
    bundle

def undo (start : Nat) (data : Array UInt8) : Unfiltered :=
  let whole := data.size / 16
  let rewriteAt (data : Array UInt8) (number : Nat) : Array UInt8 :=
    let index := 16 * number
    let bundle := Bytes.toNatLE (octetsAt data index 16)
    let rewritten := (branchSlots (bundle % 2 ^ 5)).foldl
      (rewriteSlot (start + index)) bundle
    putAt data index (Bytes.ofNatLE 16 rewritten)
  ⟨(List.range whole).foldl rewriteAt data, 16 * whole⟩

end Itanium

/-! ## Instructions of any size -/

namespace X86

/-- The place behind the last octet that might begin a branch of five octets,
and what is known of the octets after it: in the low half of the marks, which of
them might begin a branch, and in the high half, which might end one. -/
structure Past where
  behind : Nat := 0
  marks : Nat := 0

/-- What is known at an index. The marks move up with every octet, and those
that are too old are gone. -/
def Past.marksAt (past : Past) (index : Nat) : Nat :=
  let distance := index + 5 - past.behind
  if 5 < distance then
    0
  else
    (List.range distance).foldl
      (fun marks _ => 2 * (marks &&& 0x77)) past.marks

/-- The last octet of a target that is not too far away. -/
def isFill (octet : Nat) : Bool :=
  octet == 0x00 || octet == 0xFF

/-- Whether the octets that have been marked leave room for a branch. -/
def admits (marks : Nat) : Bool :=
  marks / 2 ≤ 4 && marks / 2 != 3

/-- How many octets of a target are marked. -/
def markedOctets (marks : Nat) : Nat :=
  match marks / 2 with
  | 0 => 0
  | 1 => 1
  | 4 => 3
  | _ => 2

/-- The way to a target. It is turned over as long as the highest octet below
the marked ones looks like the end of a branch. -/
def relative (marks next : Nat) : (turns target : Nat) → Nat
  | 0, target => wayTo target next
  | turns + 1, target =>
      let way := wayTo target next
      let marked := 8 * markedOctets marks
      if marks ≠ 0 ∧ isFill (way / 2 ^ (24 - marked) % 2 ^ 8) then
        relative marks next turns (way ^^^ (2 ^ (32 - marked) - 1))
      else
        way

/-- A target is not turned over more often than this. -/
def maxTurns : Nat := 4

/-- A way with its sign in the last octet. -/
def signed (way : Nat) : Nat :=
  way % 2 ^ 24 + (if way / 2 ^ 24 % 2 = 1 then 0xFF else 0) * 2 ^ 24

def undoFrom (start : Nat) :
    (steps index : Nat) → Past → Array UInt8 → Unfiltered
  | 0, index, _, data => ⟨data, index⟩
  | steps + 1, index, past, data =>
      if data.size < index + 5 then
        ⟨data, index⟩
      else if data[index]? ≠ some 0xE8 ∧ data[index]? ≠ some 0xE9 then
        undoFrom start steps (index + 1) past data
      else
        let marks := past.marksAt index
        let target := Bytes.toNatLE (octetsAt data (index + 1) 4)
        let last := target / 2 ^ 24
        if isFill last && admits marks then
          let way := relative marks (start + index + 5) maxTurns target
          undoFrom start steps (index + 5) ⟨index + 5, 0⟩
            (putAt data (index + 1) (Bytes.ofNatLE 4 (signed way)))
        else
          let mark := if isFill last then 0x11 else 0x01
          undoFrom start steps (index + 1) ⟨index + 5, marks ||| mark⟩ data

def undo (start : Nat) (data : Array UInt8) : Unfiltered :=
  undoFrom start data.size 0 {} data

end X86

end Filter

/-! ## Filters -/

/-- The instructions that a filter of branches knows. -/
inductive Architecture
  | x86
  | powerPc
  | itanium
  | arm
  | armThumb
  | sparc
  deriving DecidableEq, Repr

namespace Architecture

/-- Instructions stand at multiples of this. -/
def alignment : Architecture → Nat
  | x86 => 1
  | armThumb => 2
  | itanium => 16
  | powerPc | arm | sparc => 4

def undo : Architecture → (start : Nat) → Array UInt8 → Unfiltered
  | x86 => Filter.X86.undo
  | itanium => Filter.Itanium.undo
  | powerPc => Filter.powerPc.undo
  | arm => Filter.arm.undo
  | armThumb => Filter.armThumb.undo
  | sparc => Filter.sparc.undo

end Architecture

inductive Filter
  | delta (distance : Nat)
  | branches (architecture : Architecture) (start : Nat)
  deriving DecidableEq, Repr

namespace Filter

def undo : Filter → Array UInt8 → Unfiltered
  | delta distance => undoDelta distance
  | branches architecture start => architecture.undo start

/-- Undoes filters, the last one first. Data that is not complete is given as
far as it is settled. -/
def undoAll (isComplete : Bool) (filters : List Filter)
    (data : Array UInt8) : Array UInt8 :=
  filters.foldr
    (fun filter data =>
      let undone := filter.undo data
      if isComplete then undone.octets
      else undone.octets.extract 0 undone.settled)
    data

end Filter

end Compression

end PickleGraph
