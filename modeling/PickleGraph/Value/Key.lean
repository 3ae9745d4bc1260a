import PickleGraph.Value.Number
import PickleGraph.Failure

/-!
# Keys of mappings and members of sets

Keys match when they are the same object or are equal: numbers by value, texts
and byte strings by content, tuples and frozen sets by their items, and records
and type references by identity. A value that can change has no hash and is no
key. Tuples are compared part by part, and not at any depth.
-/

namespace PickleGraph

namespace Value

/-! ## Matching -/

/-- Whether two values with no items match. -/
def matchesLeaf (left right : Value) : Bool :=
  match left.plain, right.plain with
  | .none, .none => true
  | .ellipsis, .ellipsis => true
  | .str first, .str second => first == second
  | .bytes first, .bytes second => first == second
  | .object first, .object second => first == second
  | .scalar firstType first, .scalar secondType second =>
      firstType.code == secondType.code && first == second
  | .dtype first, .dtype second => first.code == second.code
  | first, second =>
      match first.number?, second.number? with
      | some x, some y => x.equals y || sameMark first second
      | _, _ => false
where
  sameMark : Value → Value → Bool
    | .float first mark, .float second otherMark =>
        mark != 0 && mark == otherMark && first == second
    | .complex _ _ mark, .complex _ _ otherMark =>
        mark != 0 && mark == otherMark
    | _, _ => false

/-- Whether two values are interchangeable as keys. -/
def matchesKey : Value → Value → Bool
  | .tuple items, right =>
      match right with
      | .tuple others => matchItems items others
      | _ => false
  | .frozenset members, right =>
      match right with
      | .frozenset others =>
          members.length == others.length && matchMembers members others
      | _ => false
  | left, right => matchesLeaf left right
where
  matchItems : List Value → List Value → Bool
    | [], [] => true
    | item :: items, other :: others =>
        matchesKey item other && matchItems items others
    | _, _ => false
  matchMembers : List Value → List Value → Bool
    | [], _ => true
    | member :: members, others =>
        others.any (matchesKey member) && matchMembers members others

/-! ## The depth of a comparison -/

/-- How deep inside tuples the comparison of two values that match goes. What is
of one kind is taken to be one object, which no comparison looks into. -/
def comparisonDepth : Value → Value → Nat
  | .tuple items, right =>
      match right with
      | .tuple others =>
          match depthOfItems items others with
          | 0 => 0
          | depth + 1 => depth + 2
      | _ => 0
  | left, right => if left.ctorIdx = right.ctorIdx then 0 else 1
where
  depthOfItems : List Value → List Value → Nat
    | item :: items, other :: others =>
        max (comparisonDepth item other) (depthOfItems items others)
    | _, _ => 0

/-- The depth at which a comparison is given up. It is the limit that a program
starts with, and the frames that are open around the comparison do not count.
Calls and states take for granted that their keys can be compared. -/
def maxComparisonDepth : Nat := 1000

/-- Whether two values match and cannot be compared. Values that do not match are
told apart by their hashes. -/
def isBeyond (left right : Value) : Bool :=
  left.matchesKey right && maxComparisonDepth ≤ left.comparisonDepth right

end Value

/-! ## Hashing -/

/-- Whether the bytes of an array element stand for themselves. -/
def Dtype.isByte : Dtype → Bool
  | .element .signed 1 _ _ | .element .unsigned 1 _ _ => true
  | _ => false

namespace Heap

/-- The refusal to hash a view: of its format, or of the object behind it. -/
def viewRefusal (heap : Heap) (view : MemoryView) : Refusal :=
  match heap.get view.source with
  | .array array => if array.type.isByte then .wrongType else .badValue
  | _ => .wrongType

def checkHashable (heap : Heap) : Value → Except Refusal Unit
  | .tuple items => checkItems items
  | .scalar (.element .void ..) _ | .scalar (.struct ..) _ =>
      .error .wrongType
  | .object address =>
      match heap.get address with
      | .record _ | .typeRef _ | .plain => .ok ()
      | .view view => .error (heap.viewRefusal view)
      | _ => .error .wrongType
  | _ => .ok ()
where
  checkItems : List Value → Except Refusal Unit
    | [] => .ok ()
    | item :: items => do
        checkHashable heap item
        checkItems items

end Heap

/-! ## Associations and collections of distinct members -/

namespace Entries

/-- Binds a key. A key that is already bound keeps its object and its place. -/
def insert (key value : Value) :
    List (Value × Value) → List (Value × Value)
  | [] => [(key, value)]
  | (bound, old) :: rest =>
      if bound.matchesKey key then
        (bound, value) :: rest
      else
        (bound, old) :: insert key value rest

/-- Binds keys one after the other, whether or not they can be compared: `reach`
tells how many of them can. -/
def merge (entries additions : List (Value × Value)) :
    List (Value × Value) :=
  additions.foldl (fun merged (key, value) => insert key value merged)
    entries

def find? (key : Value) (entries : List (Value × Value)) : Option Value :=
  (entries.find? fun entry => entry.1.matchesKey key).map (·.2)

def findText? (key : String) (entries : List (Value × Value)) :
    Option Value :=
  find? (.str (Text.ofString key)) entries

end Entries

namespace Members

/-- Adds a member unless one that matches is present. -/
def insert (member : Value) (members : List Value) : List Value :=
  if members.any (·.matchesKey member) then
    members
  else
    members ++ [member]

/-- Adds members one after the other, whether or not they can be compared. -/
def merge (members additions : List Value) : List Value :=
  additions.foldl (fun merged member => insert member merged) members

/-- How many additions come before one that cannot be compared with the member
it matches. -/
def reach (members : List Value) : List Value → Nat
  | [] => 0
  | addition :: rest =>
      if members.any (·.isBeyond addition) then
        0
      else
        reach (insert addition members) rest + 1

end Members

/-- How many additions come before one whose key cannot be compared with the
bound key it matches. -/
def Entries.reach (entries additions : List (Value × Value)) : Nat :=
  Members.reach (entries.map (·.1)) (additions.map (·.1))

end PickleGraph
