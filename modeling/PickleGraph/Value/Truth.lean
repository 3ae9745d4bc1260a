import PickleGraph.Value.Key

/-!
# Truth of values

Empty containers, empty texts and zeros are false. An array is as true as its
only element; with any other number of elements the question is refused.
-/

namespace PickleGraph

def Dtype.isTrueElement (type : Dtype) (data : Bytes) : Bool :=
  match type with
  | .element kind _ _ _ =>
      match kind with
      | .bytes | .text => !(dropPadding data).isEmpty
      | .float | .complex =>
          match (Value.scalar type data).number? with
          | some number => !number.isZero
          | none => data.any (· != 0)
      | _ => data.any (· != 0)
  | _ => data.any (· != 0)

namespace Heap

/-- The truth of a value that holds no array. -/
def isTruePlain (heap : Heap) : Value → Bool
  | .none => false
  | .bool value => value
  | .int value => value != 0
  | .float value _ => !value.isZero
  | .complex real imaginary _ => !(real.isZero && imaginary.isZero)
  | .str text => !text.isEmpty
  | .bytes content => !content.isEmpty
  | .tuple items => !items.isEmpty
  | .frozenset members => !members.isEmpty
  | .scalar type data => type.isTrueElement data
  | .ellipsis | .dtype _ => true
  | .object address =>
      match heap.get address with
      | .list items => !items.isEmpty
      | .dict _ entries => !entries.isEmpty
      | .set members => !members.isEmpty
      | .bytearray content => !content.isEmpty
      | _ => true

def isTrue (heap : Heap) (value : Value) : Except Refusal Bool :=
  match value with
  | .object address =>
      match heap.get address with
      | .view view => .ok (view.length != 0)
      | .array array =>
          match array.content with
          | .raw data =>
              if array.shape.foldl (· * ·) 1 = 1 then
                .ok (array.type.isTrueElement data)
              else
                .error .badValue
          | .items [item] => .ok (heap.isTruePlain item)
          | .items _ => .error .badValue
      | _ => .ok (heap.isTruePlain value)
  | _ => .ok (heap.isTruePlain value)

end Heap

end PickleGraph
