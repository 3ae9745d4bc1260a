import PickleGraph.Text.Basic
import PickleGraph.Value.Access
import PickleGraph.Value.Description

/-!
# Values on one line

A value is shown on one line with a colour for its type. Containers show their
items down to a fixed depth, so the line is finite for cyclic graphs too; records
and arrays are summarized.

A style is a control sequence that a terminal takes as a colour. Styled text
ends with the sequence that restores the normal colour. Without colours the text
stays as it is.
-/

namespace PickleGraph

/-! ## Styles -/

inductive Style
  | normal
  | gray
  | red
  | green
  | yellow
  | blue
  | pink
  | cyan
  | bold
  deriving DecidableEq, Repr

namespace Style

/-- Every style with its name and the parameter of its control sequence. -/
def table : List (Style × String × String) :=
  [(normal, "normal", "0"), (gray, "gray", "1;38;5;240"),
    (red, "red", "31"), (green, "green", "32"), (yellow, "yellow", "33"),
    (blue, "blue", "34"), (pink, "pink", "35"), (cyan, "cyan", "36"),
    (bold, "bold", "1")]

def ofName? (name : Text) : Option Style :=
  (table.find? fun entry => Text.ofString entry.2.1 == name).map (·.1)

def sequence (style : Style) : Text :=
  let parameter := ((table.lookup style).map (·.2)).getD ""
  List.flatten ["\x1b[", parameter, "m"]

/-- The styles that are named in a text; other names count for nothing. -/
def ofNames (names : Text) : List Style :=
  (names.splitOnP (·.isBlank)).filterMap ofName?

end Style

/-! ## Styled text -/

namespace Display

def styled (colored : Bool) (styles : List Style) (text : Text) : Text :=
  if colored then
    styles.flatMap Style.sequence ++ text ++ Style.normal.sequence
  else
    text

def paint (colored : Bool) (style : Style) (text : Text) : Text :=
  styled colored [style] text

def rule (count : Nat) : Text :=
  List.replicate count (CodePoint.ofChar '─')

/-- The width of what stands at the right end of a headline. -/
def headlineMargin : Int := 5

/-- A name between rules that fill a width. -/
def headline (colored : Bool) (name : Text) (width : Int) : Text :=
  let free := width - headlineMargin - name.length
  List.flatten [paint colored .gray (rule free.toNat),
    paint colored .cyan (List.flatten [" ", name, " "]),
    paint colored .gray (rule 3)]

/-! ## Values -/

/-- Containers deeper than this are cut to an ellipsis. -/
def maxDepth : Int := 3

/-! ## Leaves -/

def maxDigits : Nat := 4300

def checkDigits (number : Int) : Except Refusal Unit :=
  if number.natAbs < 10 ^ maxDigits then .ok () else .error .badValue

def maxWidth : Nat := 60

/-- A text that is cut where it is too wide. -/
def shorten (text : Text) : Text :=
  if maxWidth < text.length then
    text.take (maxWidth - 3) ++ Text.ofString "..."
  else
    text

/-- The colour for the type of a value without items. -/
def leafStyle (heap : Heap) : Value → Style
  | .str _ | .bytes _ => .pink
  | .none | .bool _ => .blue
  | .int _ | .float .. => .cyan
  | .scalar (.element .bytes _ _ _) _ | .scalar (.element .text _ _ _) _ =>
      .pink
  | .scalar (.element .float 8 _ _) _ => .cyan
  | .object address =>
      match heap.get address with
      | .bytearray _ => .pink
      | .array _ => .green
      | _ => .yellow
  | _ => .yellow

/-- Whether a value is described as it is, without escapes. -/
def isDescribed (heap : Heap) : Value → Bool
  | .object address =>
      match heap.get address with
      | .array _ | .record _ | .typeRef _ => true
      | _ => false
  | _ => false

/-- The text of a value without items. -/
def leafText (heap : Heap) (value : Value) : Except Refusal Text := do
  if let .int number := value then
    checkDigits number
  let described := heap.describe value
  let escaped :=
    if isDescribed heap value then described
    else Quoted.asciiOnly described
  return if leafStyle heap value = .pink then shorten escaped else escaped

/-! ## Containers -/

def brackets (heap : Heap) : Value → Text × Text
  | .tuple _ => ("(", ")")
  | .object address =>
      match heap.get address with
      | .list _ => ("[", "]")
      | _ => ("\x7b", "\x7d")
  | _ => ("\x7b", "\x7d")

inductive Shown
  | leaf
  | items (values : List Value)
  | entries (entries : List (Value × Value))

def inside (heap : Heap) : Value → Shown
  | .tuple items => .items items
  | .frozenset members => .items members
  | .object address =>
      match heap.get address with
      | .list items => .items items.toList
      | .set members => .items members
      | .dict _ entries => .entries entries
      | _ => .leaf
  | _ => .leaf

/-- What separates items, and stands after each of them at first. -/
def comma : Text := ", "

/-- Items between brackets. The comma after the last one is cut off again. -/
def closed (around : Text × Text) (parts : List Text) : Text :=
  let opened := around.1 ++ parts.flatMap (· ++ comma)
  if opened ≠ around.1 then
    opened.take (opened.length - comma.length) ++ around.2
  else
    opened ++ around.2

/-- A sequence, where `item` shows one item of it. -/
def enclosed
    (item : Value → Except Refusal Text) (around : Text × Text)
    (values : List Value) : Except Refusal Text := do
  return closed around (← values.mapM item)

def shownEntry
    (item : Value → Except Refusal Text) (entry : Value × Value) :
    Except Refusal Text := do
  return Notation.pair (← item entry.1) (← item entry.2)

def enclosedEntries
    (item : Value → Except Refusal Text) (entries : List (Value × Value)) :
    Except Refusal Text := do
  return closed ("\x7b", "\x7d") (← entries.mapM (shownEntry item))

/-- A value inside `depth` containers. The number of levels bounds those below
it. -/
def valueWithin (colored : Bool) (heap : Heap) :
    (levels : Nat) → (depth : Int) → Value → Except Refusal Text
  | 0, _, _ => .ok (paint colored .gray "...")
  | levels + 1, depth, value =>
      let item := valueWithin colored heap levels (depth + 1)
      match inside heap value with
      | .leaf =>
          (leafText heap value).map (paint colored (leafStyle heap value))
      | .items values =>
          if maxDepth < depth then .ok (paint colored .gray "...")
          else enclosed item (brackets heap value) values
      | .entries entries =>
          if maxDepth < depth then .ok (paint colored .gray "...")
          else enclosedEntries item entries

def bareValue (colored : Bool) (heap : Heap) (depth : Int) (value : Value) :
    Except Refusal Text :=
  valueWithin colored heap ((maxDepth - depth).toNat + 2) depth value

/-- What stands behind a value. -/
def separator (stripped : Bool) : Text :=
  if stripped then [] else comma

/-- A value with the separator behind it, unless that is stripped. -/
def value (colored : Bool) (heap : Heap) (stripped : Bool) (depth : Int)
    (value : Value) : Except Refusal Text :=
  (bareValue colored heap depth value).map (· ++ separator stripped)

def items (colored : Bool) (heap : Heap) (depth : Int) (container : Value) :
    Except Refusal Text := do
  let (values, heap) ← heap.iterate container
  enclosed (bareValue colored heap depth) (brackets heap container) values

def entries (colored : Bool) (heap : Heap) (depth : Int) (mapping : Value) :
    Except Refusal Text :=
  match heap.entries? mapping, heap.record? mapping with
  | some entries, _ => enclosedEntries (bareValue colored heap depth) entries
  | none, some (_, record) =>
      enclosedEntries (bareValue colored heap depth) record.fields
  | none, none => .error .missingAttribute

end Display

end PickleGraph
