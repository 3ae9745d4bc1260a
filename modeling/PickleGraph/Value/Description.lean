import PickleGraph.Dtype.Description
import PickleGraph.Failure
import PickleGraph.Number.Decimal
import PickleGraph.Number.Integer
import PickleGraph.Value.Number

/-!
# Descriptions of values

The form in which messages quote a value. An object inside its own description
is cut to an ellipsis, so the description of a cyclic graph is finite.
-/

namespace PickleGraph

/-! ## Leaves -/

def boolText (value : Bool) : Text :=
  if value then "True" else "False"

/-- An array element, named by its type as numpy 2 does. -/
def Dtype.describeScalar (type : Dtype) (data : Bytes) : Text :=
  let body : Text :=
    match type.plainValue? data with
    | some (.int number) => Text.ofInt number
    | some (.float number _) => Decimal.toString number
    | some (.complex re im _) => Decimal.complexToString re im
    | some (.str text) => Quoted.text text
    | some (.bytes content) => Quoted.bytes content
    | _ => Quoted.bytes data
  match type.plainValue? data with
  | some (.bool value) => List.flatten ["np.", boolText value, "_"]
  | _ => List.flatten ["np.", type.scalarName, "(", body, ")"]

def Record.describe (record : Record) : Text :=
  List.flatten ["<", record.target, " record (",
    Text.ofNat record.fields.length, " fields)>"]

def TypeRef.describe (reference : TypeRef) : Text :=
  List.flatten ["<type ", reference.module, ".", reference.name, ">"]

def NdArray.describe (array : NdArray) : Text :=
  List.flatten ["ndarray", Notation.shape array.shape, " ",
    array.type.describe]

/-! ## Values -/

namespace Value

/-- The description of a value, where `object` describes the objects. -/
def describe (object : Address → Text) : Value → Text
  | none => "None"
  | ellipsis => "Ellipsis"
  | bool value => boolText value
  | int number => Text.ofInt number
  | float number _ => Decimal.toString number
  | complex re im _ => Decimal.complexToString re im
  | str text => Quoted.text text
  | bytes content => Quoted.bytes content
  | tuple items => Notation.tuple (describeAll items)
  | frozenset [] => "frozenset()"
  | frozenset members =>
      List.flatten ["frozenset(", Notation.braced (describeAll members), ")"]
  | scalar type data => type.describeScalar data
  | dtype type =>
      List.flatten ["dtype(", Quoted.text type.describe, ")"]
  | .object address => object address
where
  describeAll : List Value → List Text
    | [] => []
    | item :: items => describe object item :: describeAll items

end Value

namespace Heap

/-- The description of an object inside those that are being described. The
depth bounds how many objects can be nested. -/
def describeObject (heap : Heap) :
    (depth : Nat) → (outer : List Address) → Address → Text
  | 0, _, _ => "..."
  | depth + 1, outer, address =>
      let inner := Value.describe
        (heap.describeObject depth (address :: outer))
      let isNested := outer.contains address
      match heap.get address with
      | .list items =>
          if isNested then "[...]"
          else Notation.list (items.toList.map inner)
      | .dict false entries =>
          if isNested then "\x7b...\x7d"
          else Notation.braced (entries.map fun (key, value) =>
            Notation.pair (inner key) (inner value))
      | .dict true [] => "OrderedDict()"
      | .dict true entries =>
          if isNested then "..."
          else List.flatten ["OrderedDict(",
            Notation.list (entries.map fun (key, value) =>
              Notation.tuple [inner key, inner value]), ")"]
      | .set [] => "set()"
      | .set members =>
          if isNested then "set(...)"
          else Notation.braced (members.map inner)
      | .bytearray content =>
          List.flatten ["bytearray(", Quoted.bytes content, ")"]
      | .view _ => "<memory>"
      | .record record => record.describe
      | .typeRef reference => reference.describe
      | .array array => array.describe
      | .plain => "<object>"

def describe (heap : Heap) (value : Value) : Text :=
  Value.describe (heap.describeObject (heap.objects.size + 1) []) value

end Heap

/-! ## Quotations

A number of too many digits has no description, so that a value which shows one
cannot be quoted.
-/

/-- The values that the description of an object shows. Of a large array the
elements are left out. -/
def Object.shown : Object → List Value
  | list items => items.toList
  | dict _ entries => entries.map (·.1) ++ entries.map (·.2)
  | set members => members
  | array content =>
      match content.content with
      | .items values => if values.length ≤ 1000 then values else []
      | .raw _ => []
  | _ => []

/-- Whether every number that a value shows is short enough, where `object`
tells it of the objects. -/
def Value.isShowable (object : Address → Bool) : Value → Bool
  | int number => number.natAbs < 10 ^ Integer.maxDecimalDigits
  | tuple items => areShowable items
  | frozenset members => areShowable members
  | .object address => object address
  | _ => true
where
  areShowable : List Value → Bool
    | [] => true
    | item :: items => isShowable object item && areShowable items

namespace Heap

/-- Whether an object inside those that are being described can be shown. -/
def objectIsShowable (heap : Heap) :
    (depth : Nat) → (outer : List Address) → Address → Bool
  | 0, _, _ => true
  | depth + 1, outer, address =>
      outer.contains address ||
        (heap.get address).shown.all (Value.isShowable
          (heap.objectIsShowable depth (address :: outer)))

def isShowable (heap : Heap) (value : Value) : Bool :=
  value.isShowable (heap.objectIsShowable (heap.objects.size + 1) [])

/-- The description of a value in a message. -/
def quote (heap : Heap) (value : Value) : Except Refusal Text :=
  if heap.isShowable value then .ok (heap.describe value)
  else .error .badValue

/-- A value as plain words: texts stand for themselves. -/
def wording (heap : Heap) (value : Value) : Except Refusal Text :=
  match value with
  | .str text => .ok text
  | _ => heap.quote value

end Heap

end PickleGraph
