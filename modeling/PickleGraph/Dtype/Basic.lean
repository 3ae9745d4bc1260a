import PickleGraph.Text.Basic

/-!
# Element types of arrays

A dtype says how the bytes of one array element are read: as a single element
of some kind, as a subarray of equal elements, or as a structure of named
fields at given offsets.
-/

namespace PickleGraph

inductive ElementKind
  | boolean
  | signed
  | unsigned
  | float
  | complex
  | timedelta
  | datetime
  | object
  | bytes
  | text
  | void
  | variableText
  deriving DecidableEq, Repr

/-- The units of time, each before the finer ones. -/
def Dtype.unitNames : List String :=
  ["Y", "M", "W", "D", "h", "m", "s", "ms", "us", "ns", "ps", "fs", "as"]

/-- A multiple of a named unit of time. -/
structure TimeUnit where
  count : Int
  name : String
  isKnown : name ∈ Dtype.unitNames
  deriving DecidableEq, Repr

inductive Dtype
  | element
      (kind : ElementKind) (size : Nat) (bigEndian : Bool)
      (unit : Option TimeUnit)
  | subarray (base : Dtype) (shape : List Nat)
  | struct (fields : List (Text × Nat × Dtype)) (size : Nat)
  deriving Repr, Inhabited

namespace ElementKind

def letter : ElementKind → String
  | boolean => "b"
  | signed => "i"
  | unsigned => "u"
  | float => "f"
  | complex => "c"
  | timedelta => "m"
  | datetime => "M"
  | object => "O"
  | bytes => "S"
  | text => "U"
  | void => "V"
  | variableText => "T"

/-- Kinds whose elements may have any length. -/
def isFlexible : ElementKind → Bool
  | bytes | text | void => true
  | _ => false

def isReference : ElementKind → Bool
  | object | variableText => true
  | _ => false

/-- Whether elements of this kind and size have a byte order. -/
def hasByteOrder (kind : ElementKind) (size : Nat) : Bool :=
  match kind with
  | boolean | object | bytes | void | variableText => false
  | text | timedelta | datetime => true
  | signed | unsigned | float | complex => 1 < size

end ElementKind

namespace Dtype

/-! ## Construction -/

/-- An element whose byte order is dropped where it has none. -/
def ofElement
    (kind : ElementKind) (size : Nat) (bigEndian : Bool)
    (unit : Option TimeUnit) : Dtype :=
  .element kind size (bigEndian && kind.hasByteOrder size) unit

def object : Dtype := .element .object 8 false none

def float64 : Dtype := .element .float 8 false none

/-! ## Sizes -/

def itemSize : Dtype → Nat
  | element _ size _ _ => size
  | subarray base shape => shape.foldl (· * ·) base.itemSize
  | struct _ size => size

/-- Whether elements hold references to values at any depth. -/
def hasObject : Dtype → Bool
  | element kind _ _ _ => kind.isReference
  | subarray base _ => base.hasObject
  | struct fields _ => anyObject fields
where
  anyObject : List (Text × Nat × Dtype) → Bool
    | [] => false
    | (_, _, type) :: rest => type.hasObject || anyObject rest

/-- Whether elements take no bytes without being structures. -/
def isUnsized (type : Dtype) : Bool :=
  match type with
  | struct .. => false
  | _ => type.itemSize == 0

/-! ## Codes -/

/-- A unit of time in brackets; nothing without a unit. -/
def unitSuffix : Option TimeUnit → String
  | none => ""
  | some unit =>
      "[" ++ (if unit.count = 1 then "" else toString unit.count) ++
        unit.name ++ "]"

/-- The type code of an element: byte order, kind and length. -/
def elementCode
    (kind : ElementKind) (size : Nat) (bigEndian : Bool)
    (unit : Option TimeUnit) : String :=
  let order :=
    if kind.hasByteOrder size then
      if bigEndian then ">" else "<"
    else
      "|"
  let length :=
    match kind with
    | .object => ""
    | .text => toString (size / 4)
    | _ => toString size
  order ++ kind.letter ++ length ++ unitSuffix unit

/-- The type code; subarrays and structures show only their size. -/
def code : Dtype → String
  | element kind size bigEndian unit => elementCode kind size bigEndian unit
  | type => "|V" ++ toString type.itemSize

end Dtype

end PickleGraph
