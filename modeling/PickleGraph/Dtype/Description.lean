import PickleGraph.Dtype.Basic
import PickleGraph.Text.Quoted

/-!
# Descriptions of dtypes

The form in which an array shows its element type: a name for elements in the
order of the machine, a code for others, and the fields of a structure in the
notation they are declared in.
-/

namespace PickleGraph

namespace Notation

/-! ## Sequences -/

def separated (parts : List Text) : Text :=
  List.intercalate (Text.ofString ", ") parts

def list (parts : List Text) : Text :=
  List.flatten ["[", separated parts, "]"]

/-- A tuple, which has a comma after its only item. -/
def tuple : List Text → Text
  | [part] => List.flatten ["(", part, ",)"]
  | parts => List.flatten ["(", separated parts, ")"]

def braced (parts : List Text) : Text :=
  List.flatten ["\x7b", separated parts, "\x7d"]

def pair (key value : Text) : Text :=
  List.flatten [key, ": ", value]

def shape (extents : List Nat) : Text :=
  tuple (extents.map Text.ofNat)

end Notation

namespace Dtype

/-! ## Elements -/

/-- The code of an element inside a structure: no mark where byte order is
moot, and no length where none is fixed. -/
def fieldCode
    (kind : ElementKind) (size : Nat) (bigEndian : Bool)
    (unit : Option TimeUnit) : Text :=
  let order :=
    if kind.hasByteOrder size then
      if bigEndian then ">" else "<"
    else
      ""
  match kind with
  | .boolean => "?"
  | .object => "O"
  | .variableText => "T"
  | .bytes | .void | .text =>
      if size = 0 then
        order ++ kind.letter
      else
        Text.ofString order ++
          Text.ofString ((elementCode kind size bigEndian unit).drop 1).copy
  | _ =>
      Text.ofString order ++
        Text.ofString ((elementCode kind size bigEndian unit).drop 1).copy

def elementName
    (kind : ElementKind) (size : Nat) (unit : Option TimeUnit) : String :=
  let bits := toString (8 * size)
  match kind with
  | .boolean => "bool"
  | .signed => "int" ++ bits
  | .unsigned => "uint" ++ bits
  | .float => "float" ++ bits
  | .complex => "complex" ++ bits
  | .timedelta => "timedelta64" ++ unitSuffix unit
  | .datetime => "datetime64" ++ unitSuffix unit
  | .object => "object"
  | .variableText => "StringDType()"
  | .bytes => "bytes" ++ bits
  | .text => "str" ++ bits
  | .void => "void" ++ bits

/-! ## Structures -/

/-- Whether fields from `start` on follow each other up to `size`. -/
def isPackedFrom (start size : Nat) : List (Text × Nat × Dtype) → Bool
  | [] => start == size
  | (_, offset, type) :: rest =>
      offset == start && isPackedFrom (start + type.itemSize) size rest

mutual

/-- The form of a dtype inside the description of another one. -/
def innerForm : Dtype → Text
  | element kind size bigEndian unit =>
      Quoted.text (fieldCode kind size bigEndian unit)
  | subarray base shape =>
      Notation.tuple [base.innerForm, Notation.shape shape]
  | struct fields size =>
      if isPackedFrom 0 size fields then
        Notation.list (fieldForms fields)
      else
        Notation.braced
          [Notation.pair "'names'" (Notation.list
            (fields.map fun field => Quoted.text field.1)),
          Notation.pair "'formats'" (Notation.list (formats fields)),
          Notation.pair "'offsets'" (Notation.list
            (fields.map fun field => Text.ofNat field.2.1)),
          Notation.pair "'itemsize'" (Text.ofNat size)]

def formats : List (Text × Nat × Dtype) → List Text
  | [] => []
  | (_, _, type) :: rest => type.innerForm :: formats rest

/-- One tuple per field, with the dimensions of a subarray at its end. -/
def fieldForms : List (Text × Nat × Dtype) → List Text
  | [] => []
  | (name, _, subarray base shape) :: rest =>
      Notation.tuple
        [Quoted.text name, base.innerForm, Notation.shape shape] ::
          fieldForms rest
  | (name, _, type) :: rest =>
      Notation.tuple [Quoted.text name, type.innerForm] :: fieldForms rest

end

def describe : Dtype → Text
  | element kind size bigEndian unit =>
      if kind.isFlexible || bigEndian then
        elementCode kind size bigEndian unit
      else
        elementName kind size unit
  | type => type.innerForm

end Dtype

end PickleGraph
