import PickleGraph.Dtype.Compound

/-!
# Layouts of structures

A structure can be described by fields in order, optionally aligned to the
natural boundaries of their types, or by names, types and offsets, where the
whole size may be given as well.
-/

namespace PickleGraph.Dtype

/-- The natural boundary of a type. -/
def alignment : Dtype → Nat
  | element kind size _ _ =>
      match kind with
      | .bytes | .void => 1
      | .text => 4
      | .complex => max 1 (size / 2)
      | .object | .variableText => 8
      | _ => max 1 size
  | subarray base _ => base.alignment
  | struct fields _ => greatest fields
where
  greatest : List (Text × Nat × Dtype) → Nat
    | [] => 1
    | (_, _, type) :: rest => max type.alignment (greatest rest)

def alignUp (offset boundary : Nat) : Nat :=
  (offset + boundary - 1) / boundary * boundary

/-- A field as it is described: an offset is left open where fields follow
each other. -/
structure FieldSpec where
  name : Text
  title : Option Text
  type : Dtype
  offset : Option Int

/-- Names and titles must all differ, except that a field may have its own name
as title. -/
def distinctNames (fields : List FieldSpec) : Bool :=
  let names := fields.flatMap fun field =>
    match field.title with
    | some title =>
        if title = field.name then [field.name] else [field.name, title]
    | none => [field.name]
  names.eraseDups.length == names.length

/-- Places one field after those before it, which end at `size`. -/
def placeField (aligned : Bool) (size : Nat) (field : FieldSpec) :
    Except Refusal (Nat × Nat) := do
  let boundary := if aligned then field.type.alignment else 1
  match field.offset with
  | none =>
      let offset := alignUp size boundary
      return (offset, offset + field.type.itemSize)
  | some given => do
      let given ← checkInt given
      if given < 0 ∨ given.toNat % boundary ≠ 0 then
        .error .badValue
      else
        return (given.toNat, max size (given.toNat + field.type.itemSize))

def placeFields (aligned : Bool) :
    (size : Nat) → List FieldSpec →
      Except Refusal (List (Text × Nat × Dtype) × Nat)
  | size, [] => .ok ([], size)
  | size, field :: rest => do
      let (offset, size) ← placeField aligned size field
      let (placed, total) ← placeFields aligned size rest
      return ((field.name, offset, field.type) :: placed, total)

/-- Whether a field with references shares bytes with another field. -/
def overlapsObject : List (Text × Nat × Dtype) → Bool
  | [] => false
  | (_, offset, type) :: rest =>
      rest.any (fun (_, other, otherType) =>
        (type.hasObject || otherType.hasObject) &&
          offset < other + otherType.itemSize &&
          other < offset + type.itemSize) ||
        overlapsObject rest

/-- A structure of described fields. A given size must hold all of them. -/
def ofFields
    (aligned : Bool) (fields : List FieldSpec) (size : Option Int) :
    Except Refusal Dtype := do
  fields.forM fun field => checkField field.type
  if !distinctNames fields then
    .error .badValue
  else do
    let (placed, total) ← placeFields aligned 0 fields
    if overlapsObject placed then
      .error .wrongType
    else
      let boundary :=
        if aligned then (struct placed total).alignment else 1
      let total := alignUp total boundary
      match size with
      | none => return struct placed total
      | some given => do
          let given ← checkInt given
          if given < total ∨ given.toNat % boundary ≠ 0 then
            .error .badValue
          else
            return struct placed given.toNat

end PickleGraph.Dtype
