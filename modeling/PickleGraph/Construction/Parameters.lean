import PickleGraph.Value.Key

/-!
# Parameters of calls

A call passes values by position and by name. Every parameter takes at most one
of them, every name must belong to a parameter, and the parameters that are
required must take one.
-/

namespace PickleGraph

structure Call where
  args : List Value
  named : List (Value × Value)

namespace Call

def ofArgs (args : List Value) : Call :=
  ⟨args, []⟩

def checkNames (call : Call) : Except Refusal Unit :=
  if call.named.all fun (name, _) =>
      match name.plain with
      | .str _ => true
      | _ => false then
    .ok ()
  else
    .error .wrongType

/-- The values passed by position, where no names are allowed. -/
def positional (call : Call) : Except Refusal (List Value) :=
  if call.named.isEmpty then .ok call.args else .error .wrongType

def valueFor (call : Call) (index : Nat) (name : String) :
    Except Refusal (Option Value) :=
  match call.args[index]?, Entries.findText? name call.named with
  | some _, some _ => .error .wrongType
  | some value, none => .ok (some value)
  | none, named => .ok named

/-- The values for parameters in order, of which the first `required` must
take one. -/
def bind (call : Call) (names : List String) (required : Nat) :
    Except Refusal (List (Option Value)) := do
  call.checkNames
  let isKnown (name : Value) : Bool :=
    names.any fun known => name.matchesKey (.str (Text.ofString known))
  if names.length < call.args.length ||
      !(call.named.all fun (name, _) => isKnown name) then
    .error .wrongType
  else
    let indexed := (List.range names.length).zip names
    let values ← indexed.mapM fun (index, name) => call.valueFor index name
    if (values.take required).all Option.isSome then
      return values
    else
      .error .wrongType

def onlyArg? (call : Call) : Except Refusal (Option Value) := do
  match ← call.positional with
  | [] => return none
  | [value] => return some value
  | _ => .error .wrongType

end Call

end PickleGraph
