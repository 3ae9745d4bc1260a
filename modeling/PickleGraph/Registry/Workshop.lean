import PickleGraph.Registry

/-!
# Builders and registries with tables

Every builder and every registry has a table of bound names. The table of a
builder is changed in place. The one of a registry is a copy that nobody
changes. What has been done stays done when a registration is rejected.
-/

namespace PickleGraph

/-- All builders and registries, in the order in which they were made, by the
places of their tables. -/
structure Workshop where
  tables : List Bindings
  builders : List Nat
  registries : List Nat
  deriving DecidableEq, Repr

/-- An operation on a builder or on a registry, which are given by their number
in the order of their making. -/
inductive Operation
  | start
  | register (builder : Nat) (key : TypeKey) (object : Binding)
  | share (builder : Nat) (key target : TypeKey)
  | build (builder : Nat)
  | extend (registry : Nat)
  deriving DecidableEq, Repr

namespace Workshop

abbrev Action := EStateM RegistryFault Workshop

def empty : Workshop := ⟨[], [], []⟩

def table (workshop : Workshop) (place : Nat) : Bindings :=
  workshop.tables.getD place []

/-- What a builder has bound so far. -/
def builderAt? (workshop : Workshop) (builder : Nat) : Option Bindings :=
  workshop.builders[builder]?.map workshop.table

/-- A registry as it answers now. -/
def registryAt? (workshop : Workshop) (registry : Nat) : Option Registry :=
  workshop.registries[registry]?.map fun place => ⟨workshop.table place⟩

/-! ## Tables -/

def newTable (bindings : Bindings) : Action Nat := do
  let place := (← get).tables.length
  modify fun workshop =>
    { workshop with tables := workshop.tables ++ [bindings] }
  return place

def write (place : Nat) (key : TypeKey) (object : Binding) : Action Unit :=
  modify fun workshop =>
    { workshop with
      tables := workshop.tables.modify place (·.bind key object) }

/-- Binds a type in a table unless it is bound to a different strategy there. -/
def register (place : Nat) (key : TypeKey) (object : Binding) :
    Action Unit := do
  if let some existing := ((← get).table place).find? key then
    if existing.strategy ≠ object.strategy then
      throw (.conflict key existing.strategy.target)
  write place key object

/-- Makes a type share the strategy of another one of the same table. -/
def share (place : Nat) (key target : TypeKey) : Action Unit := do
  match ((← get).table place).find? target with
  | none => throw (.missingTarget key target)
  | some object => register place key object

/-! ## Builders and registries -/

def start : Action Unit := do
  let place ← newTable []
  modify fun workshop =>
    { workshop with builders := workshop.builders ++ [place] }

/-- Makes a registry of a copy of a table. -/
def build (place : Nat) : Action Unit := do
  let copy ← newTable ((← get).table place)
  modify fun workshop =>
    { workshop with registries := workshop.registries ++ [copy] }

/-- Makes a builder and enters what is bound in a table, one name after the
other. -/
def extend (place : Nat) : Action Unit := do
  let copy ← newTable []
  ((← get).table place).forM fun (key, object) => write copy key object
  modify fun workshop =>
    { workshop with builders := workshop.builders ++ [copy] }

/-! ## Operations -/

/-- Acts on the table of a builder, if the builder was made. -/
def onBuilder (builder : Nat) (action : Nat → Action Unit) :
    Action Unit := do
  match (← get).builders[builder]? with
  | some place => action place
  | none => return

/-- Acts on the table of a registry, if the registry was made. -/
def onRegistry (registry : Nat) (action : Nat → Action Unit) :
    Action Unit := do
  match (← get).registries[registry]? with
  | some place => action place
  | none => return

end Workshop

namespace Operation

def perform : Operation → Workshop.Action Unit
  | start => Workshop.start
  | register builder key object =>
      Workshop.onBuilder builder (Workshop.register · key object)
  | share builder key target =>
      Workshop.onBuilder builder (Workshop.share · key target)
  | build builder => Workshop.onBuilder builder Workshop.build
  | extend registry => Workshop.onRegistry registry Workshop.extend

/-- Why an operation is rejected, if it is. -/
def fault? (operation : Operation) (workshop : Workshop) :
    Option RegistryFault :=
  match operation.perform workshop with
  | .ok () _ => none
  | .error fault _ => some fault

/-- The workshop after an operation, rejected or not. -/
def next (operation : Operation) (workshop : Workshop) : Workshop :=
  match operation.perform workshop with
  | .ok () after => after
  | .error _ after => after

end Operation

namespace Workshop

/-- The workshop after one operation after the other. -/
def after (workshop : Workshop) : List Operation → Workshop
  | [] => workshop
  | operation :: rest => (operation.next workshop).after rest

/-- Which of the operations are rejected, and why. -/
def faults (workshop : Workshop) : List Operation → List (Option RegistryFault)
  | [] => []
  | operation :: rest =>
      operation.fault? workshop :: (operation.next workshop).faults rest

end Workshop

end PickleGraph
