import PickleGraph.Failure
import PickleGraph.Strategy

/-!
# Registries

A registry binds names of types to strategies. Several names may share one
strategy, which then has one identity; strategies that are merely equal have
identities of their own. A builder grows by registration and by aliasing and is
frozen into a registry.
-/

namespace PickleGraph

/-- The name of a type inside its module. -/
structure TypeKey where
  module : Text
  name : Text
  deriving DecidableEq, Repr

/-- A strategy with its identity. -/
structure Binding where
  strategy : Strategy
  identity : Nat
  deriving DecidableEq, Repr

/-- Bound names in the order of their first registration. -/
abbrev Bindings := List (TypeKey × Binding)

namespace Bindings

/-- Binds a name; a bound name keeps its place. -/
def bind (key : TypeKey) (binding : Binding) : Bindings → Bindings
  | [] => [(key, binding)]
  | (bound, old) :: rest =>
      if bound = key then
        (bound, binding) :: rest
      else
        (bound, old) :: bind key binding rest

def find? (key : TypeKey) (bindings : Bindings) : Option Binding :=
  bindings.lookup key

end Bindings

structure Registry where
  bindings : Bindings
  deriving Repr

structure RegistryBuilder where
  bindings : Bindings
  /-- Greater than every identity in use. -/
  fresh : Nat
  deriving Repr

/-- Why a registration was rejected. -/
inductive RegistryFault
  | conflict (key : TypeKey) (target : Text)
  | missingTarget (key target : TypeKey)
  deriving DecidableEq, Repr

def TypeKey.path (key : TypeKey) : Text :=
  List.flatten [key.module, ".", key.name]

def RegistryFault.message : RegistryFault → Text
  | conflict key target =>
      List.flatten [key.path, " is already registered as ", target]
  | missingTarget key target =>
      List.flatten ["cannot alias ", key.path, ": ", target.path,
        " is not registered"]

/-! ## Registries -/

namespace Registry

def empty : Registry := ⟨[]⟩

def find? (registry : Registry) (key : TypeKey) : Option Binding :=
  registry.bindings.find? key

/-- The strategy of a type, which must be known. -/
def resolve (registry : Registry) (key : TypeKey) :
    Except Cause Strategy :=
  match registry.find? key with
  | some binding => .ok binding.strategy
  | none => .error (.unknownType key.module key.name)

def contains (registry : Registry) (key : TypeKey) : Bool :=
  (registry.find? key).isSome

def size (registry : Registry) : Nat :=
  registry.bindings.length

def keys (registry : Registry) : List TypeKey :=
  registry.bindings.map (·.1)

def items (registry : Registry) : List (TypeKey × Strategy) :=
  registry.bindings.map fun (key, binding) => (key, binding.strategy)

/-- Every name that shares the strategy of a type. -/
def aliasesOf (registry : Registry) (key : TypeKey) :
    Except Cause (List TypeKey) :=
  match registry.find? key with
  | none => .error (.unknownType key.module key.name)
  | some binding =>
      .ok ((registry.bindings.filter fun entry =>
        entry.2.identity == binding.identity).map (·.1))

def sameStrategy (registry : Registry) (first second : TypeKey) :
    Except Cause Bool :=
  match registry.find? first, registry.find? second with
  | none, _ => .error (.unknownType first.module first.name)
  | _, none => .error (.unknownType second.module second.name)
  | some left, some right => .ok (left.identity == right.identity)

def extend (registry : Registry) : RegistryBuilder where
  bindings := registry.bindings
  fresh := registry.bindings.foldl
    (fun fresh entry => max fresh (entry.2.identity + 1)) 0

end Registry

/-! ## Builders -/

namespace RegistryBuilder

def empty : RegistryBuilder := ⟨[], 0⟩

def build (builder : RegistryBuilder) : Registry :=
  ⟨builder.bindings⟩

/-- Binds a type unless it is bound to a different strategy. -/
def bindUnless
    (builder : RegistryBuilder) (key : TypeKey) (binding : Binding) :
    Except RegistryFault RegistryBuilder :=
  let bound :=
    { builder with bindings := builder.bindings.bind key binding }
  match builder.bindings.find? key with
  | none => .ok bound
  | some existing =>
      if existing.strategy = binding.strategy then
        .ok bound
      else
        .error (.conflict key existing.strategy.target)

/-- Binds a type to a strategy with a new identity. -/
def register
    (builder : RegistryBuilder) (key : TypeKey) (strategy : Strategy) :
    Except RegistryFault RegistryBuilder :=
  { builder with fresh := builder.fresh + 1 }.bindUnless key
    ⟨strategy, builder.fresh⟩

/-- Makes a type share the strategy of another one. -/
def share (builder : RegistryBuilder) (key target : TypeKey) :
    Except RegistryFault RegistryBuilder :=
  match builder.bindings.find? target with
  | none => .error (.missingTarget key target)
  | some binding => builder.bindUnless key binding

end RegistryBuilder

end PickleGraph
