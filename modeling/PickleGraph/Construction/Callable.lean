import PickleGraph.Construction.Complex
import PickleGraph.Construction.Octets
import PickleGraph.Payload.Elements

/-!
# Constructors of plain values

Containers, byte strings, complex numbers and arrays are made by a closed set of
constructors, which take their arguments as a call does. Containers are made of
the items of a value, mappings of another mapping or of pairs.
-/

namespace PickleGraph.Constructor

/-! ## Containers -/

/-- The items of the only value of a call, each of which must pass a check. -/
def itemsOf
    (check : Value → Except Refusal Unit) (call : Call) (heap : Heap) :
    Except Refusal (List Value × Heap) := do
  match ← call.onlyArg? with
  | none => return ([], heap)
  | some value => heap.iterateChecked check value

/-- Distinct hashable members of the only value of a call. -/
def membersOf (call : Call) (heap : Heap) :
    Except Refusal (List Value × Heap) := do
  let (items, heap) ← itemsOf heap.checkHashable call heap
  return (Members.merge [] items, heap)

/-- The entries of pairs, which may be given by the rows of an array. -/
def entriesOfPairs (pairs : List Value) (heap : Heap) :
    Except Refusal (List (Value × Value) × Heap) :=
  pairs.foldlM
    (fun (entries, heap) pair => do
      let (items, heap) ← heap.iterate pair
      match items with
      | [key, value] => do
          heap.checkHashable key
          return (Entries.insert key value entries, heap)
      | _ => .error .badValue)
    ([], heap)

/-- The entries of a mapping, of a record, or of pairs. -/
def entriesOfValue (value : Value) (heap : Heap) :
    Except Refusal (List (Value × Value) × Heap) :=
  match heap.entries? value, heap.record? value with
  | some entries, _ => .ok (entries, heap)
  | none, some (_, record) => .ok (record.fields, heap)
  | none, none => do
      let (pairs, heap) ← heap.iterate value
      entriesOfPairs pairs heap

def entriesOfArgs (heap : Heap) :
    List Value → Except Refusal (List (Value × Value) × Heap)
  | [] => .ok ([], heap)
  | [value] => entriesOfValue value heap
  | _ => .error .wrongType

def entriesOfCall (call : Call) (heap : Heap) :
    Except Refusal (List (Value × Value) × Heap) := do
  let (entries, heap) ← entriesOfArgs heap call.args
  return (Entries.merge entries call.named, heap)

/-! ## Encoded texts -/

def carrierCharsets : List String :=
  ["latin1", "latin-1", "iso-8859-1"]

def decodeCarrier (call : Call) (heap : Heap) : Except Failure Value := do
  let values ← call.bind ["text", "encoding", "errors"] 1
  let argument (index : Nat) := values[index]?.bind id
  let content := (argument 0).getD .none
  let charset := (argument 1).getD .none
  if !(carrierCharsets.any fun name =>
      charset.matchesKey (.str (Text.ofString name))) then
    Failure.raise (.unsupportedCharset (← heap.quote charset))
  else
    match content.plain with
    | .bytes _ => return content
    | .str text =>
        let encoded ← Octets.ofText text charset (argument 2)
        return .bytes encoded
    | _ => .error (.refused .missingAttribute)

/-! ## Constructors -/

/-- The type that a reconstructor is asked to make an instance of. -/
def reconstructed (call : Call) (heap : Heap) : Except Failure TypeRef := do
  let values ← call.bind ["cls", "base", "state"] 2
  let type := (values.head?.bind id).getD .none
  match heap.typeRef? type with
  | some reference => return reference
  | none =>
      Failure.raise
        (.reconstructedNotType (Text.ofString (heap.typeName type)))

def arrayOfBuffer (call : Call) (heap : Heap) :
    Except Failure (Value × Heap) := do
  let values ← call.bind ["buffer", "dtype", "shape", "order"] 3
  let argument (index : Nat) (missing : Value) :=
    (values[index]?.bind id).getD missing
  let (array, heap) ← Payload.ofLentBuffer (argument 0 .none)
    (argument 1 .none) (argument 2 .none)
    (argument 3 (.str (Text.ofString "C"))) heap
  return heap.alloc (.array array)

/-- A constructor refuses names that are no texts; only an ordered mapping
takes whatever can be a key. -/
def checkNames (constructor : Constructor) (call : Call) :
    Except Refusal Unit :=
  match constructor with
  | .orderedDict => .ok ()
  | _ => call.checkNames

/-- The value that a constructor makes, where `instantiate` makes an instance
of a type without arguments. -/
def apply
    (instantiate : TypeRef → Heap → Except Failure (Value × Heap))
    (constructor : Constructor) (call : Call) (heap : Heap) :
    Except Failure (Value × Heap) := do
  constructor.checkNames call
  match constructor with
  | .object =>
      match ← call.positional with
      | [] => return heap.alloc .plain
      | _ => .error (.refused .wrongType)
  | .set => do
      let (members, heap) ← membersOf call heap
      return heap.alloc (.set members)
  | .frozenset => do
      let (members, heap) ← membersOf call heap
      return (.frozenset members, heap)
  | .list => do
      let (items, heap) ← itemsOf (fun _ => .ok ()) call heap
      return heap.alloc (.list items.toArray)
  | .tuple => do
      let (items, heap) ← itemsOf (fun _ => .ok ()) call heap
      return (.tuple items, heap)
  | .dict => do
      let (entries, heap) ← entriesOfCall call heap
      return heap.alloc (.dict false entries)
  | .orderedDict => do
      let (entries, heap) ← entriesOfCall call heap
      return heap.alloc (.dict true entries)
  | .bytes => return (.bytes (← Octets.ofCall "bytes" call heap), heap)
  | .bytearray => do
      let content ← Octets.ofCall "bytearray" call heap
      return heap.alloc (.bytearray content)
  | .complex => do
      let (real, imaginary) ← Complex.ofCall call heap
      return heap.complex real imaginary
  | .encode => return (← decodeCarrier call heap, heap)
  | .reconstructor => do instantiate (← reconstructed call heap) heap
  | .fromBuffer => arrayOfBuffer call heap

end PickleGraph.Constructor
