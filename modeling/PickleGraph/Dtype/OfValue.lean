import PickleGraph.Dtype.Layout

/-!
# Types described by values

A type is described by a code, by a list of fields, by a pair of a type and a
length, count or shape, by a mapping that lays out a structure, or by nothing at
all. Other values describe no type.
-/

namespace PickleGraph

namespace Value

/-- The number that a value is, where truth values do not count. -/
def exactInt? (value : Value) : Option Int :=
  match value.plain with
  | .int number => some number
  | _ => Option.none

def text? (value : Value) : Option Text :=
  match value.plain with
  | .str text => some text
  | _ => Option.none

end Value

namespace Dtype

/-- The depth at which descriptions inside each other are given up. -/
def maxNesting : Nat := 1000

/-- One type seen as another of the same size. -/
def unionWith (base other : Dtype) : Except Refusal Dtype :=
  let isObject (type : Dtype) : Bool :=
    match type with
    | element .object _ _ _ => true
    | _ => false
  if base.isUnsized then
    match base with
    | element kind _ bigEndian unit =>
        .ok (element kind other.itemSize bigEndian unit)
    | _ => .ok base
  else if base.itemSize ≠ other.itemSize then
    .error .badValue
  else if (base.hasObject || other.hasObject) &&
      !(isObject base && isObject other) then
    .error .badValue
  else
    match other with
    | struct .. => .ok other
    | _ => .ok base

def fieldNames (index : Nat) (value : Value) :
    Except Refusal (Text × Option Text) :=
  match value with
  | .tuple [title, name] =>
      match name.text? with
      | none => .error .wrongType
      | some [] =>
          match title.text? with
          | some (first :: rest) =>
              .ok (first :: rest, some (first :: rest))
          | _ => .error .wrongType
      | some name => .ok (name, title.text?)
  | value =>
      match value.text? with
      | some [] => .ok (fieldName index, none)
      | some name => .ok (name, none)
      | none => .error .wrongType

end Dtype

namespace Heap

/-- The extents that a value gives: one number or several. -/
def extents? (heap : Heap) (value : Value) : Option (List Int) :=
  match value with
  | .tuple items => items.mapM Value.exactInt?
  | .object address =>
      match heap.get address with
      | .list items => items.toList.mapM Value.exactInt?
      | _ => none
  | value => value.exactInt?.map ([·])

/-- The items of a sequence that is accessed by position. -/
def positions (heap : Heap) (value : Value) :
    Except Refusal (List Value) :=
  match value with
  | .tuple items => .ok items
  | .str text => .ok (text.map fun point => .str [point])
  | .object address =>
      match heap.get address with
      | .list items => .ok items.toList
      | _ => .error .wrongType
  | _ => .error .wrongType

def offsetOf (value : Value) : Except Refusal Int :=
  match value.number? with
  | some (.int number) => .ok number
  | _ => .error .wrongType

def requireInt (value : Value) : Except Refusal Int :=
  match value.exactInt? with
  | some number => .ok number
  | none => .error .wrongType

/-- Whether a value stands for a shape or a count at once. -/
def isExtent : Value → Bool
  | .tuple _ | .int _ | .bool _ => true
  | _ => false

/-- A type together with what follows it in a pair. -/
def pairType
    (heap : Heap) (base : Dtype) (value : Value)
    (other : Except Refusal Dtype) : Except Refusal Dtype :=
  match isExtent value, other with
  | false, .ok other => base.unionWith other
  | _, _ =>
      if base.isUnsized then
        match value.exactInt? with
        | some length => base.withLength length
        | none => .error .wrongType
      else
        match value.exactInt?, heap.extents? value with
        | some count, _ => base.repeated count
        | none, some extents => base.reshaped extents
        | none, none => .error .badValue

/-- A field of a list: a name, a type and perhaps a shape. -/
def fieldSpec
    (inner : Value → Except Refusal Dtype) (index : Nat) (item : Value) :
    Except Refusal Dtype.FieldSpec := do
  let (name, described) ←
    match item with
    | .tuple [name, type] => pure (name, type)
    | .tuple [name, type, shape] => pure (name, .tuple [type, shape])
    | _ => .error .wrongType
  let (name, title) ← Dtype.fieldNames index name
  let type ← inner described
  return ⟨name, title, type, none⟩

/-- A field of a mapping from names to types and offsets; the entry of a title
is no field. -/
def entrySpec?
    (inner : Value → Except Refusal Dtype) (entry : Value × Value) :
    Except Refusal (Option Dtype.FieldSpec) := do
  let (name, described) := entry
  let (type, offset, title) ←
    match described with
    | .tuple [type, offset] => pure (type, offset, Value.none)
    | .tuple [type, offset, title] => pure (type, offset, title)
    | _ => .error .badValue
  if title.matchesKey name then
    return none
  else
    let offset ← offsetOf offset
    let type ← inner type
    match name.text? with
    | some name => return some ⟨name, title.text?, type, some offset⟩
    | none => .error .badValue

/-- A field of a layout in columns. -/
def columnSpec
    (inner : Value → Except Refusal Dtype)
    (name format title : Value) (offset : Option Value) :
    Except Refusal Dtype.FieldSpec := do
  let type ← inner format
  let offset ← offset.mapM requireInt
  match name.text? with
  | some name => return ⟨name, title.text?, type, offset⟩
  | none => .error .badValue

/-- The items under a key of a layout in columns, or the same for each of its
fields. -/
def column
    (heap : Heap) (entries : List (Value × Value)) (key : String)
    (size : Nat) : Except Refusal (List (Option Value)) :=
  match Entries.findText? key entries with
  | some items => (heap.positions items).map (·.map some)
  | none => .ok (List.replicate size none)

/-- A structure laid out in columns of names, types and offsets. -/
def columnsType
    (heap : Heap) (inner : Bool → Value → Except Refusal Dtype)
    (aligned : Bool) (entries : List (Value × Value))
    (names formats : Value) : Except Refusal Dtype := do
  let names ← heap.positions names
  let formats ← heap.positions formats
  let offsets ← heap.column entries "offsets" names.length
  let titles ← heap.column entries "titles" names.length
  if formats.length < names.length ∨ offsets.length < names.length ∨
      titles.length < names.length then
    .error .badValue
  else
    let aligned ←
      match Entries.findText? "aligned" entries with
      | some (.bool flag) => pure (aligned || flag)
      | some _ => .error .badValue
      | none => pure aligned
    let columns := (names.zip formats).zip (offsets.zip titles)
    let fields ← columns.mapM fun ((name, format), (offset, title)) =>
      columnSpec (inner aligned) name format (title.getD .none) offset
    let size ← (Entries.findText? "itemsize" entries).mapM requireInt
    Dtype.ofFields aligned fields size

/-- The type that a value describes. -/
def dtypeWithin (heap : Heap) :
    (depth : Nat) → (aligned : Bool) → Value → Except Refusal Dtype
  | 0, _, _ => .error .unimplemented
  | depth + 1, aligned, value =>
      let inner := heap.dtypeWithin depth
      match value with
      | .none => .ok Dtype.float64
      | .dtype type => .ok type
      | .str text => Dtype.ofText text
      | .bytes content => ofBytes content
      | .scalar type _ =>
          match value.plain with
          | .str text => Dtype.ofText text
          | .bytes content => ofBytes content
          | _ => .ok type
      | .tuple [type, value] => do
          let base ← inner aligned type
          heap.pairType base value (inner false value)
      | .object address =>
          match heap.get address with
          | .list items => do
              let indexed := (List.range items.size).zip items.toList
              let fields ← indexed.mapM fun (index, item) =>
                fieldSpec (inner aligned) index item
              Dtype.ofFields aligned fields none
          | .dict _ entries =>
              match Entries.findText? "names" entries,
                  Entries.findText? "formats" entries with
              | some names, some formats =>
                  heap.columnsType inner aligned entries names formats
              | _, _ => do
                  let fields ← entries.mapM (entrySpec? (inner aligned))
                  let sorted := (fields.filterMap id).mergeSort
                    fun first second =>
                      first.offset.getD 0 ≤ second.offset.getD 0
                  Dtype.ofFields aligned sorted none
          | _ => .error .wrongType
      | _ => .error .wrongType
where
  ofBytes (content : Bytes) : Except Refusal Dtype :=
    if content.all (· < 0x80) then
      Dtype.ofText (Text.ofLatin1 content)
    else
      .error .wrongType

def dtypeOf (heap : Heap) (value : Value) : Except Refusal Dtype :=
  heap.dtypeWithin Dtype.maxNesting false value

end Heap

end PickleGraph
