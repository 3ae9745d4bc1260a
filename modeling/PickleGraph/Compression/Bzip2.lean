import PickleGraph.Bytes
import PickleGraph.Checksum
import PickleGraph.Compression.PrefixCode

/-!
# Bzip2 streams

A bzip2 stream is a sequence of sorted blocks. The column of a block is written
as places in a list of octets that moves each octet to its front when it is
used, with runs of the front octet as numbers, in several prefix codes that take
turns.

The rotations of a block, sorted, end in a column of octets from which the block
can be told once the row of the block itself is known. Within a block, four
equal octets are followed by the number of further ones.

A block that was hard to sort could be disturbed before: the lowest bit of an
octet is inverted at irregular places. Undoing this is the same as doing it.
-/

namespace PickleGraph

namespace Compression

/-! ## Disturbed blocks -/

namespace Disturbance

/-- The lengths of the stretches of a block. The last octet but one of each is
disturbed, and the stretches repeat. -/
def stretches : Array Nat :=
  #[619, 720, 127, 481, 931, 816, 813, 233, 566, 247, 985, 724, 205, 454,
    863, 491, 741, 242, 949, 214, 733, 859, 335, 708, 621, 574, 73, 654, 730,
    472, 419, 436, 278, 496, 867, 210, 399, 680, 480, 51, 878, 465, 811, 169,
    869, 675, 611, 697, 867, 561, 862, 687, 507, 283, 482, 129, 807, 591, 733,
    623, 150, 238, 59, 379, 684, 877, 625, 169, 643, 105, 170, 607, 520, 932,
    727, 476, 693, 425, 174, 647, 73, 122, 335, 530, 442, 853, 695, 249, 445,
    515, 909, 545, 703, 919, 874, 474, 882, 500, 594, 612, 641, 801, 220, 162,
    819, 984, 589, 513, 495, 799, 161, 604, 958, 533, 221, 400, 386, 867, 600,
    782, 382, 596, 414, 171, 516, 375, 682, 485, 911, 276, 98, 553, 163, 354,
    666, 933, 424, 341, 533, 870, 227, 730, 475, 186, 263, 647, 537, 686, 600,
    224, 469, 68, 770, 919, 190, 373, 294, 822, 808, 206, 184, 943, 795, 384,
    383, 461, 404, 758, 839, 887, 715, 67, 618, 276, 204, 918, 873, 777, 604,
    560, 951, 160, 578, 722, 79, 804, 96, 409, 713, 940, 652, 934, 970, 447,
    318, 353, 859, 672, 112, 785, 645, 863, 803, 350, 139, 93, 354, 99, 820,
    908, 609, 772, 154, 274, 580, 184, 79, 626, 630, 742, 653, 282, 762, 623,
    680, 81, 927, 626, 789, 125, 411, 521, 938, 300, 821, 78, 343, 175, 128,
    250, 170, 774, 972, 275, 999, 639, 495, 78, 352, 126, 857, 956, 358, 619,
    580, 124, 737, 594, 701, 612, 669, 112, 134, 694, 363, 992, 809, 743, 168,
    974, 944, 375, 748, 52, 600, 747, 642, 182, 862, 81, 344, 805, 988, 739,
    511, 655, 814, 334, 249, 515, 897, 955, 664, 981, 649, 113, 974, 459, 893,
    228, 433, 837, 553, 268, 926, 240, 102, 654, 459, 51, 686, 754, 806, 760,
    493, 403, 415, 394, 687, 700, 946, 670, 656, 610, 738, 392, 760, 799, 887,
    653, 978, 321, 576, 617, 626, 502, 894, 679, 243, 440, 680, 879, 194, 572,
    640, 724, 926, 56, 204, 700, 707, 151, 457, 449, 797, 195, 791, 558, 945,
    679, 297, 59, 87, 824, 713, 663, 412, 693, 342, 606, 134, 108, 571, 364,
    631, 212, 174, 643, 304, 329, 343, 97, 430, 751, 497, 314, 983, 374, 822,
    928, 140, 206, 73, 263, 980, 736, 876, 478, 430, 305, 170, 514, 364, 692,
    829, 82, 855, 953, 676, 246, 369, 970, 294, 750, 807, 827, 150, 790, 288,
    923, 804, 378, 215, 828, 592, 281, 565, 555, 710, 82, 896, 831, 547, 261,
    524, 462, 293, 465, 502, 56, 661, 821, 976, 991, 658, 869, 905, 758, 745,
    193, 768, 550, 608, 933, 378, 286, 215, 979, 792, 961, 61, 688, 793, 644,
    986, 403, 106, 366, 905, 644, 372, 567, 466, 434, 645, 210, 389, 550, 919,
    135, 780, 773, 635, 389, 707, 100, 626, 958, 165, 504, 920, 176, 193, 713,
    857, 265, 203, 50, 668, 108, 645, 990, 626, 197, 510, 357, 358, 850, 858,
    364, 936, 638]

structure Progress where
  output : Array UInt8 := #[]
  left : Nat := 0
  index : Nat := 0

def Progress.push (progress : Progress) (byte : UInt8) : Progress :=
  let ends := progress.left = 0
  let left :=
    if ends then stretches[progress.index]?.getD 2 else progress.left
  { output :=
      progress.output.push (if left = 2 then byte ^^^ 1 else byte)
    left := left - 1
    index :=
      if ends then (progress.index + 1) % stretches.size
      else progress.index }

def apply (block : Bytes) : Bytes :=
  (block.foldl Progress.push {}).output.toList

end Disturbance

/-! ## Sorted blocks -/

namespace BlockSort

/-- For each row, the row of the rotation by one. -/
def successors (column : Array UInt8) : Array Nat :=
  let rows := column.toList.zipIdx.mergeSort
    (fun left right => left.1 ≤ right.1)
  (rows.map (·.2)).toArray

/-- The block whose row is `origin`. -/
def restore (column : Array UInt8) (origin : Nat) : Bytes :=
  let following := successors column
  let next (row : Nat) : Nat := following[row]?.getD 0
  let (block, _) := (List.range column.size).foldl
    (fun (block, row) _ =>
      (block.push (column[row]?.getD 0), next row))
    ((#[] : Array UInt8), next origin)
  block.toList

/-- What a block has been expanded to, and the last octet with the number of
times in a row that it was read. -/
structure Expansion where
  output : Array UInt8 := #[]
  last : UInt8 := 0
  run : Nat := 0

def runLimit : Nat := 4

def Expansion.push (expansion : Expansion) (byte : UInt8) : Expansion :=
  if expansion.run = runLimit then
    { output := expansion.output ++
        Array.replicate byte.toNat expansion.last }
  else
    { output := expansion.output.push byte
      last := byte
      run :=
        if expansion.run ≠ 0 ∧ byte = expansion.last then
          expansion.run + 1
        else
          1 }

/-- Expands the runs of a block. A block must not end before the number that
follows a run. -/
def expand (block : Bytes) : Expansion :=
  block.foldl Expansion.push {}

end BlockSort

/-! ## Streams -/

namespace Bzip2

open Unpacking

def expect : List Nat → Unpacking Unit
  | [] => return ()
  | byte :: bytes => do
      require ((← highBits 8) = byte)
      expect bytes

def moveToFront {α : Type} (items : List α) (place : Nat) : List α :=
  match items[place]? with
  | some item => item :: items.eraseIdx place
  | none => items

/-! ## The head of a block -/

/-- The octets that occur in a block: one bit for each stretch of sixteen, and
one for each octet of the stretches that are used. -/
def usedOctets : Unpacking Bytes := do
  let stretches ← (List.range 16).mapM fun _ => highBit
  let used ← (stretches.zipIdx.filter (·.1 = 1)).mapM fun (_, stretch) => do
    let marks ← (List.range 16).mapM fun _ => highBit
    return (marks.zipIdx.filter (·.1 = 1)).map fun (_, offset) =>
      UInt8.ofNat (16 * stretch + offset)
  return used.flatten

/-- The number of ones before the next zero, which is below a limit. -/
def onesBelow : (limit : Nat) → Unpacking Nat
  | 0 => throw .damaged
  | limit + 1 => do
      if (← highBit) = 0 then
        return 0
      else
        return (← onesBelow limit) + 1

/-- More selectors than this have no groups to select for. -/
def maxSelectors : Nat := 18002

/-- The code that each group of symbols is written in. -/
def selectors (codeCount : Nat) : Unpacking (List Nat) := do
  let count ← highBits 15
  require (1 ≤ count)
  let places ← (List.range count).mapM fun _ => onesBelow codeCount
  let (selected, _) := (places.take maxSelectors).foldl
    (fun (selected, front) place =>
      let front := moveToFront front place
      (selected.push (front.headD 0), front))
    ((#[] : Array Nat), List.range codeCount)
  return selected.toList

def longestWord : Nat := 20

def lengthFrom : (bound length : Nat) → Unpacking Nat
  | 0, _ => throw .damaged
  | bound + 1, length => do
      require (1 ≤ length ∧ length ≤ longestWord)
      if (← highBit) = 0 then
        return length
      else if (← highBit) = 0 then
        lengthFrom bound (length + 1)
      else
        lengthFrom bound (length - 1)

/-- More than the number of bits that are left. -/
def roundBound : Unpacking Nat := do
  return 8 * (← get).rest.length + 9

/-- A code for some symbols, whose word lengths are written as changes. Words
that no symbol has are noticed when they are one bit too long. -/
def statedCode (symbolCount : Nat) : Unpacking PrefixCode := do
  let bound ← roundBound
  let first ← highBits 5
  let (lengths, _) ← (List.range symbolCount).foldlM
    (fun (lengths, length) _ => do
      let length ← lengthFrom bound length
      return (lengths.push length, length))
    ((#[] : Array Nat), first)
  let lengths := lengths.toList
  return ⟨(List.range (longestWord + 1)).map fun length =>
    PrefixCode.level lengths (length + 1)⟩

/-! ## The column of a block -/

/-- What is the same for all symbols of a block. -/
structure Layout where
  codes : Array PrefixCode
  endSymbol : Nat
  maxSize : Nat

/-- How far the column of a block has been read. -/
structure Progress where
  selectors : List Nat
  code : PrefixCode := ⟨[]⟩
  left : Nat := 0
  front : List UInt8
  run : Nat := 0
  weight : Nat := 1
  column : Array UInt8 := #[]

def groupSize : Nat := 50

def turn (layout : Layout) (progress : Progress) : Unpacking Progress :=
  if progress.left ≠ 0 then
    return progress
  else
    match progress.selectors with
    | [] => throw .damaged
    | selector :: selectors =>
        return { progress with
          selectors
          code := layout.codes[selector]?.getD ⟨[]⟩
          left := groupSize }

/-- Runs are written in digits one and two, lowest digit first. -/
def lengthenRun (progress : Progress) (symbol : Nat) :
    Unpacking Progress := do
  require (progress.weight < 2 ^ 21)
  return { progress with
    run := progress.run + (symbol + 1) * progress.weight
    weight := 2 * progress.weight }

def endRun (layout : Layout) (progress : Progress) :
    Unpacking Progress := do
  require (progress.column.size + progress.run ≤ layout.maxSize)
  return { progress with
    column := progress.column ++
      Array.replicate progress.run (progress.front.headD 0)
    run := 0
    weight := 1 }

def place (layout : Layout) (progress : Progress) (place : Nat) :
    Unpacking Progress := do
  require (progress.column.size < layout.maxSize)
  let front := moveToFront progress.front place
  return { progress with
    front
    column := progress.column.push (front.headD 0) }

def column (layout : Layout) :
    (bound : Nat) → Progress → Unpacking (Array UInt8)
  | 0, _ => throw .damaged
  | bound + 1, progress => do
      let progress ← turn layout progress
      let symbol ← progress.code.symbol highBit
      let progress := { progress with left := progress.left - 1 }
      if symbol ≤ 1 then
        column layout bound (← lengthenRun progress symbol)
      else
        let progress ← endRun layout progress
        if symbol = layout.endSymbol then
          return progress.column
        else
          column layout bound (← place layout progress (symbol - 1))

/-! ## Blocks -/

/-- Reads a block after its signature and puts it out. Gives its checksum. -/
def block (maxSize : Nat) : Unpacking Nat := do
  let checksum ← highBits 32
  let isDisturbed ← highBit
  let origin ← highBits 24
  require (origin ≤ maxSize + 10)
  let used ← usedOctets
  require (used ≠ [])
  let codeCount ← highBits 3
  require (2 ≤ codeCount ∧ codeCount ≤ 6)
  let selectors ← selectors codeCount
  let codes ← (List.range codeCount).mapM fun _ =>
    statedCode (used.length + 2)
  let layout : Layout :=
    { codes := codes.toArray, endSymbol := used.length + 1, maxSize }
  let column ← column layout (← roundBound) { selectors, front := used }
  require (origin < column.size)
  let sorted := BlockSort.restore column origin
  let expansion := BlockSort.expand
    (if isDisturbed = 1 then Disturbance.apply sorted else sorted)
  expansion.output.forM emit
  require (expansion.run ≠ BlockSort.runLimit)
  require (checksum = Checksum.forwardCrc32 expansion.output.toList)
  return checksum

def combine (combined checksum : Nat) : Nat :=
  (2 * combined % 2 ^ 32 + combined / 2 ^ 31) ^^^ checksum

/-- Reads blocks up to the end of the stream, where the checksum of all blocks
stands. -/
def blocks (maxSize : Nat) :
    (bound combined : Nat) → Unpacking Unit
  | 0, _ => throw .damaged
  | bound + 1, combined => do
      match ← highBits 8 with
      | 0x31 =>
          expect [0x41, 0x59, 0x26, 0x53, 0x59]
          blocks maxSize bound (combine combined (← block maxSize))
      | 0x17 =>
          expect [0x72, 0x45, 0x38, 0x50, 0x90]
          require ((← highBits 32) = combined)
      | _ => throw .damaged

/-- Reads a stream. What is left of its last octet is dropped. -/
def stream : Unpacking Unit := do
  expect [0x42, 0x5A, 0x68]
  let level ← highBits 8
  require (0x31 ≤ level ∧ level ≤ 0x39)
  blocks (100000 * (level - 0x30)) (← roundBound) 0
  align

end Bzip2

end Compression

end PickleGraph
