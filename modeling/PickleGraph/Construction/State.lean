import PickleGraph.Value.Access
import PickleGraph.Value.Truth

/-!
# States of records

After its construction a record takes a state. A record filled by name takes a
mapping, or a pair of a mapping and further states for fields of its own. A
record filled by position also takes a tuple or a list. Neither the layers of a
state nor the keys of records are limited in depth here, as an interpreter's
stack would limit them.
-/

namespace PickleGraph

namespace Record

def update (record : Record) (entries : List (Value × Value)) : Record :=
  { record with fields := Entries.merge record.fields entries }

def setField (record : Record) (name : Text) (value : Value) : Record :=
  { record with fields := Entries.insert (.str name) value record.fields }

/-- Merges a mapping into a record; a false value holds nothing. -/
def mergeMapping (heap : Heap) (record : Record) (state : Value) :
    Except Failure Record := do
  if ← heap.isTrue state then
    match heap.entries? state with
    | some entries => return record.update entries
    | none =>
        Failure.raise (.stateNotMapping record.target
          (Text.ofString (heap.typeName state)))
  else
    return record

/-- Merges a mapping, or a pair of a mapping or nothing and of slots, which are
merged first and may be such a pair again. -/
def mergeState (heap : Heap) (record : Record) (state : Value) :
    Except Failure Record := do
  match state with
  | .tuple [state, slots] =>
      if isMappingOrNone heap state then
        let record ←
          if ← heap.isTrue slots then record.mergeState heap slots
          else pure record
        record.mergeMapping heap state
      else
        record.mergeMapping heap (.tuple [state, slots])
  | state => record.mergeMapping heap state
termination_by structural state
where
  isMappingOrNone (heap : Heap) : Value → Bool
    | .none => true
    | value => (heap.entries? value).isSome

/-- Fills fields by position; values beyond the names are kept together. -/
def fillPositions (record : Record) (names : List Text)
    (values : List Value) : Record :=
  let filled := (names.zip values).foldl
    (fun record (name, value) => record.setField name value) record
  if names.length < values.length then
    filled.setField (Text.ofString "extra_state")
      (.tuple (values.drop names.length))
  else
    filled

def stateItems? (heap : Heap) : Value → Option (List Value)
  | .tuple items => some items
  | .object address =>
      match heap.get address with
      | .list items => some items.toList
      | _ => none
  | _ => none

/-- Gives a record a state as its strategy says. -/
def applyState (heap : Heap) (record : Record) (state : Value) :
    Except Failure Record :=
  match record.strategy with
  | .extension _ _ _ names =>
      match heap.entries? state, stateItems? heap state with
      | some entries, _ => .ok (record.update entries)
      | none, some values =>
          if names.isEmpty then
            .ok (record.setField (Text.ofString "state") state)
          else
            .ok (record.fillPositions names values)
      | none, none =>
          Failure.raise (.stateNotSequence record.target
            (Text.ofString (heap.typeName state)))
  | _ => record.mergeState heap state

end Record

end PickleGraph
