import PickleGraph.Dtype.Basic
import PickleGraph.Number.Binary64
import PickleGraph.Strategy

/-!
# Values

A value is either complete in itself or a reference to an object of the heap.
Objects are what can change or be told apart by identity.
-/

namespace PickleGraph

/-- The place of an object in a heap. -/
abbrev Address := Nat

/-- A decoded value. A floating-point value carries the mark of its creation,
because a NaN equals only itself. -/
inductive Value
  | none
  | ellipsis
  | bool (value : Bool)
  | int (value : Int)
  | float (value : Binary64) (mark : Nat)
  | complex (real imaginary : Binary64) (mark : Nat)
  | str (text : Text)
  | bytes (content : Bytes)
  | tuple (items : List Value)
  | frozenset (members : List Value)
  | scalar (type : Dtype) (data : Bytes)
  | dtype (type : Dtype)
  | object (address : Address)
  deriving Inhabited

structure TypeRef where
  module : Text
  name : Text
  strategy : Strategy
  deriving DecidableEq

/-- An instance of a named type as plain data. -/
structure Record where
  kind : RecordKind
  module : Text
  name : Text
  target : Text
  strategy : Strategy
  args : List Value
  fields : List (Value × Value)

/-- The elements of an array in row-major order. -/
inductive ArrayContent
  | raw (data : Bytes)
  | items (values : List Value)

structure NdArray where
  type : Dtype
  shape : List Nat
  content : ArrayContent
  writable : Bool

/-- A read-only view of the bytes of another object. -/
structure MemoryView where
  source : Address
  content : Bytes
  shape : List Nat

/-- How many items a view has; one without dimensions is a single item. -/
def MemoryView.length (view : MemoryView) : Nat :=
  view.shape.headD 1

inductive Object
  | list (items : Array Value)
  | dict (ordered : Bool) (entries : List (Value × Value))
  | set (members : List Value)
  | bytearray (content : Bytes)
  | view (view : MemoryView)
  | record (record : Record)
  | typeRef (reference : TypeRef)
  | array (array : NdArray)
  | plain
  deriving Inhabited

/-! ## Heaps -/

/-- The objects, and how many marks have been taken. -/
structure Heap where
  objects : Array Object
  marks : Nat

namespace Heap

def empty : Heap := ⟨#[], 0⟩

def get? (heap : Heap) (address : Address) : Option Object :=
  heap.objects[address]?

/-- The object at an address; every address that a decode hands out has one. -/
def get (heap : Heap) (address : Address) : Object :=
  (heap.get? address).getD .plain

def alloc (heap : Heap) (object : Object) : Value × Heap :=
  (.object heap.objects.size,
    { heap with objects := heap.objects.push object })

def set (heap : Heap) (address : Address) (object : Object) : Heap :=
  { heap with objects := heap.objects.setIfInBounds address object }

/-- A floating-point value; only a NaN takes a new mark, which is never
zero. -/
def float (heap : Heap) (number : Binary64) : Value × Heap :=
  if number.isNaN then
    (.float number (heap.marks + 1), { heap with marks := heap.marks + 1 })
  else
    (.float number 0, heap)

def complex (heap : Heap) (real imaginary : Binary64) : Value × Heap :=
  if real.isNaN || imaginary.isNaN then
    (.complex real imaginary (heap.marks + 1),
      { heap with marks := heap.marks + 1 })
  else
    (.complex real imaginary 0, heap)

def record? (heap : Heap) : Value → Option (Address × Record)
  | .object address =>
      match heap.get address with
      | .record record => some (address, record)
      | _ => Option.none
  | _ => Option.none

def typeRef? (heap : Heap) : Value → Option TypeRef
  | .object address =>
      match heap.get address with
      | .typeRef reference => some reference
      | _ => Option.none
  | _ => Option.none

def entries? (heap : Heap) : Value → Option (List (Value × Value))
  | .object address =>
      match heap.get address with
      | .dict _ entries => some entries
      | _ => Option.none
  | _ => Option.none

def array? (heap : Heap) : Value → Option NdArray
  | .object address =>
      match heap.get address with
      | .array array => some array
      | _ => Option.none
  | _ => Option.none

end Heap

/-! ## Names of types of values -/

def Object.typeName : Object → String
  | list _ => "list"
  | dict true _ => "OrderedDict"
  | dict false _ => "dict"
  | set _ => "set"
  | bytearray _ => "bytearray"
  | view _ => "memoryview"
  | record content => content.kind.name
  | typeRef _ => "TypeRef"
  | array _ => "ndarray"
  | plain => "object"

/-- The name of the type of an array element taken out of its array. -/
def Dtype.scalarName : Dtype → String
  | .element kind size _ _ =>
      let bits := toString (8 * size)
      match kind with
      | .boolean => "bool"
      | .signed => "int" ++ bits
      | .unsigned => "uint" ++ bits
      | .float => if size = 16 then "longdouble" else "float" ++ bits
      | .complex => if size = 32 then "clongdouble" else "complex" ++ bits
      | .timedelta => "timedelta64"
      | .datetime => "datetime64"
      | .object => "object_"
      | .bytes => "bytes_"
      | .text => "str_"
      | .void => "void"
      | .variableText => "str"
  | .subarray .. => "ndarray"
  | .struct .. => "void"

def Heap.typeName (heap : Heap) : Value → String
  | .none => "NoneType"
  | .ellipsis => "ellipsis"
  | .bool _ => "bool"
  | .int _ => "int"
  | .float .. => "float"
  | .complex .. => "complex"
  | .str _ => "str"
  | .bytes _ => "bytes"
  | .tuple _ => "tuple"
  | .frozenset _ => "frozenset"
  | .scalar type _ => type.scalarName
  | .dtype _ => "dtype"
  | .object address => (heap.get address).typeName

end PickleGraph
