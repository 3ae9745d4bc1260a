import PickleGraph.Display.Line
import PickleGraph.Machine.Basic

/-!
# Reports

A report is printed line by line. It shows records with their fields, and the
machine after each opcode. What was printed before a failure stays printed.
-/

namespace PickleGraph

/-- The lines printed so far, latest first. -/
abbrev Printing := EStateM Failure (List Text)

namespace Printing

def line (parts : List Text) : Printing Unit :=
  modify (parts.flatten :: ·)

/-- A text that may be refused. -/
def text (shown : Except Refusal Text) : Printing Text :=
  match shown with
  | .ok text => return text
  | .error refusal => throw (.refused refusal)

def output (lines : List Text) : Text :=
  lines.reverse.flatMap (· ++ [CodePoint.ofChar '\n'])

end Printing

namespace Display

open Printing

/-! ## Records -/

def indentation (indent : Nat) : Text :=
  List.replicate (2 * indent) (CodePoint.ofChar ' ')

/-- The name of a record and, if it has any, its arguments. -/
def recordHead (colored : Bool) (heap : Heap) (indent : Nat)
    (record : Record) : Printing Unit := do
  line [indentation indent, paint colored .yellow record.target,
    paint colored .gray
      (List.flatten ["  (", record.module, ".", record.name, ")"])]
  if !record.args.isEmpty then
    let args ← text (items colored heap 0 (.tuple record.args))
    line [indentation (indent + 1), paint colored .blue "args", ": ", args]

/-- A field on one line. -/
def fieldLine (colored : Bool) (heap : Heap) (indent : Nat)
    (key field : Value) : Printing Unit := do
  let name ← text (heap.wording key)
  line [indentation indent, paint colored .blue name, ": ",
    ← text (value colored heap true 0 field)]

/-- The name of a field above what is shown of it. -/
def fieldHead (colored : Bool) (heap : Heap) (indent : Nat)
    (key : Value) : Printing Unit := do
  let name ← text (heap.wording key)
  line [indentation indent, paint colored .blue name, ":"]

/-- The fields of a record below its head. Records in fields are shown in the
same way where their indentation is below `depth`. -/
def recordWithin (colored : Bool) (heap : Heap) (depth : Int) :
    (levels indent : Nat) → Record → Printing Unit
  | 0, _, _ => throw (.refused .unimplemented)
  | levels + 1, indent, record => do
      recordHead colored heap indent record
      record.fields.forM fun (key, field) =>
        match heap.record? field with
        | some (_, fieldRecord) =>
            if (indent : Int) + 1 < depth then do
              fieldHead colored heap (indent + 1) key
              recordWithin colored heap depth levels (indent + 2) fieldRecord
            else
              fieldLine colored heap (indent + 1) key field
        | none => fieldLine colored heap (indent + 1) key field

/-- The greatest number of records inside each other that are shown. -/
def maxRecordDepth : Nat := 1000

def record (colored : Bool) (heap : Heap) (depth : Int) (record : Record) :
    Printing Unit :=
  recordWithin colored heap depth (min depth.toNat maxRecordDepth + 1) 0
    record

/-! ## Moments of a decode -/

/-- A number that is filled up to eight places. -/
def padded (number : Nat) : Text :=
  let digits := Text.ofNat number
  List.replicate (8 - digits.length) (CodePoint.ofChar ' ') ++ digits

/-- The machine after an opcode: its stack, the stacks set aside and its
memo. -/
def moment (colored : Bool) (width : Int) (moment : Moment) :
    Printing Unit := do
  let label (name : String) : Text :=
    paint colored .blue (Text.ofString name)
  let (stack, heap) :=
    moment.heap.alloc (.list moment.stack.reverse.toArray)
  let (marks, heap) := moment.marks.reverse.foldl
    (fun (marks, heap) mark =>
      let (mark, heap) := heap.alloc (.list mark.reverse.toArray)
      (marks ++ [mark], heap))
    ([], heap)
  let (marks, heap) := heap.alloc (.list marks.toArray)
  let memo : List (Value × Value) :=
    moment.memo.map fun (slot, value) => (.int slot, value)
  let (memo, heap) := heap.alloc (.dict false memo)
  let name := List.flatten [padded moment.offset, ": ", moment.opcode.name]
  line [headline colored name width]
  line [label "stack     ", ":  ", ← text (items colored heap 0 stack)]
  if !moment.marks.isEmpty then
    line [label "metastack ", ":  ", ← text (items colored heap 0 marks)]
  line [label "memo      ", ":  ", ← text (entries colored heap 0 memo)]

end Display

end PickleGraph
