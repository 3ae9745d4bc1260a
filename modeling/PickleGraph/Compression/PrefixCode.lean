import PickleGraph.Compression.Basic

/-!
# Canonical prefix codes

A canonical prefix code is determined by the lengths of its code words: words of
one length are consecutive numbers in the order of their symbols, and the first
word of a length follows the last one of the length before it.
-/

namespace PickleGraph

namespace Compression

/-- The symbols of each word length, from length one on. -/
structure PrefixCode where
  levels : List (Array Nat)
  deriving Repr

namespace PrefixCode

def level (lengths : List Nat) (length : Nat) : Array Nat :=
  ((lengths.zipIdx.filter (·.1 = length)).map (·.2)).toArray

/-- The code in which symbol `n` has a word of the `n`-th length. Symbols of
length zero have no word. -/
def ofLengths (lengths : List Nat) : PrefixCode :=
  let longest := lengths.foldl max 1
  ⟨(List.range longest).map fun length => level lengths (length + 1)⟩

/-- How many words of the longest length are unused, if there are as many words
as the lengths ask for. -/
def spareWords? (code : PrefixCode) : Option Nat :=
  code.levels.foldlM
    (fun spare level =>
      if 2 * spare < level.size then none
      else some (2 * spare - level.size)) 1

/-- Reads one symbol. The excess of a word is its distance from the first word
of its length. -/
def symbolFrom (bit : Unpacking Nat) :
    List (Array Nat) → (excess : Nat) → Unpacking Nat
  | [], _ => throw .damaged
  | level :: deeper, excess => do
      let excess := 2 * excess + (← bit)
      match level[excess]? with
      | some symbol => return symbol
      | none => symbolFrom bit deeper (excess - level.size)

def symbol (code : PrefixCode) (bit : Unpacking Nat) : Unpacking Nat :=
  symbolFrom bit code.levels 0

end PrefixCode

end Compression

end PickleGraph
