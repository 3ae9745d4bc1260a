import PickleGraph.Text.Basic

/-!
# Construction strategies

A strategy says how a named type is reconstructed. There are four kinds: a
record filled by name, a record filled by position, a placeholder for an array
whose bytes follow, and one of a closed set of constructors of plain values.
-/

namespace PickleGraph

/-- What a record stands for. -/
inductive RecordKind
  | plain
  | dtype
  | ndarray
  | scalar
  deriving DecidableEq, Repr

def RecordKind.name : RecordKind → String
  | plain => "Record"
  | dtype => "DType"
  | ndarray => "NDArray"
  | scalar => "Scalar"

/-- Where the bytes of a placeholder array are. -/
inductive ArrayLayout
  | inline
  | sibling
  deriving DecidableEq, Repr

/-- The constructors of plain values. -/
inductive Constructor
  | object
  | set
  | frozenset
  | list
  | tuple
  | dict
  | bytes
  | bytearray
  | complex
  | reconstructor
  | encode
  | orderedDict
  | fromBuffer
  deriving DecidableEq, Repr

inductive Strategy
  | generic (target : Text) (kind : RecordKind)
  | extension
      (target : Text) (kind : RecordKind)
      (argumentNames stateNames : List Text)
  | array (target : Text) (layout : ArrayLayout)
  | callable (target : Text) (function : Constructor)
  deriving DecidableEq, Repr

def Strategy.target : Strategy → Text
  | generic target _ => target
  | extension target _ _ _ => target
  | array target _ => target
  | callable target _ => target

end PickleGraph
