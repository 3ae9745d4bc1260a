import PickleGraph.Construction.Callable

/-!
# Instances of types

A type reference makes an instance as its strategy says. A record starts with
the values that the call passes by name, and with those passed by position if
the strategy names them.
-/

namespace PickleGraph

namespace Strategy

def initialFields (strategy : Strategy) (call : Call) :
    List (Value × Value) :=
  let positional : List (Value × Value) :=
    match strategy with
    | .extension _ _ names _ =>
        (names.map Value.str).zip call.args
    | _ => []
  Entries.merge (Entries.merge [] positional) call.named

/-- What a record of this strategy stands for, if it makes records. -/
def recordKind? : Strategy → Option RecordKind
  | .generic _ kind | .extension _ kind _ _ => some kind
  | .array .. => some .plain
  | .callable .. => none

end Strategy

namespace TypeRef

def newRecord
    (reference : TypeRef) (kind : RecordKind) (call : Call) (heap : Heap) :
    Value × Heap :=
  heap.alloc (.record
    { kind
      module := reference.module
      name := reference.name
      target := reference.strategy.target
      strategy := reference.strategy
      args := call.args
      fields := reference.strategy.initialFields call })

/-- Makes an instance; `inner` makes the instance that a reconstructor is
asked for. -/
def instantiateWith
    (inner : TypeRef → Heap → Except Failure (Value × Heap))
    (reference : TypeRef) (call : Call) (heap : Heap) :
    Except Failure (Value × Heap) :=
  match reference.strategy with
  | .callable _ constructor => constructor.apply inner call heap
  | .generic _ kind | .extension _ kind _ _ =>
      .ok (reference.newRecord kind call heap)
  | .array .. => .ok (reference.newRecord .plain call heap)

/-- Makes an instance without arguments. A reconstructor is refused, because it
must be told what to make. -/
def instantiateBare (reference : TypeRef) (heap : Heap) :
    Except Failure (Value × Heap) :=
  reference.instantiateWith (fun _ _ => .error (.refused .wrongType))
    (Call.ofArgs []) heap

def instantiate (reference : TypeRef) (call : Call) (heap : Heap) :
    Except Failure (Value × Heap) :=
  reference.instantiateWith instantiateBare call heap

/-- Blames the constructor of a type where its arguments were refused. -/
def blame (reference : TypeRef) : Failure → Failure
  | .refused refusal =>
      if refusal.blamesArguments then
        .ofCause (.constructorRefused reference.module reference.name)
      else
        .refused refusal
  | failure => failure

end TypeRef

/-- Makes an instance of the type that a value refers to. -/
def Heap.instantiate (heap : Heap) (type : Value) (call : Call) :
    Except Failure (Value × Heap) :=
  match heap.typeRef? type with
  | some reference =>
      (reference.instantiate call heap).mapError reference.blame
  | none =>
      Failure.raise (.notType (Text.ofString (heap.typeName type)))

end PickleGraph
