import PickleGraph.Text.Basic

/-!
# Words of a command line

A word of a command line is a plain text or a switch. Long switches may be cut
short as long as they stay distinct, and a value may be attached to a switch. No
word after a separator is a switch.
-/

namespace PickleGraph.Command

inductive Switch
  | help
  | trace
  | depth
  | encoding
  | noColor
  | verbose
  deriving DecidableEq, Repr

namespace Switch

def spellings : List (Text × Switch) :=
  [("-h", help), ("--help", help), ("--trace", trace),
    ("--depth", depth), ("--encoding", encoding), ("--no-color", noColor),
    ("-v", verbose), ("--verbose", verbose)]

def takesValue : Switch → Bool
  | depth | encoding => true
  | help | trace | noColor | verbose => false

end Switch

inductive Word
  | plain (text : Text)
  | separator
  /-- A value is attached by an equals sign. -/
  | switch (switch : Switch) (value? : Option Text)
  /-- A switch of one letter may be followed by the letters of others. -/
  | letters (switch : Switch) (letters : Text)
  | unknown
  deriving Repr

namespace Word

def dash : CodePoint := CodePoint.ofChar '-'

def equals : CodePoint := CodePoint.ofChar '='

def separatorText : Text := [dash, dash]

def splitValue (text : Text) : Text × Option Text :=
  let name := text.takeWhile (· ≠ equals)
  (name, (text.drop name.length).tail?)

def isDigit (point : CodePoint) : Bool :=
  point.digitValue?.isSome

/-- Whether a text is a number below zero, as far as its form tells: digits, or
a point before digits that may follow other digits. A line break may end it. -/
def isNegativeNumber (text : Text) : Bool :=
  let body :=
    if text.getLast? = some (CodePoint.ofChar '\n') then
      text.tail.dropLast
    else
      text.tail
  let whole := body.takeWhile isDigit
  text.head? == some dash &&
    match body.drop whole.length with
    | [] => !whole.isEmpty
    | point :: fraction =>
        point.isChar '.' && !fraction.isEmpty && fraction.all isDigit

/-- The switches that a text may be short for, or the one whose letter it
starts with. -/
def candidates (text : Text) : List Word :=
  if text[1]? = some dash then
    let (name, value) := splitValue text
    (Switch.spellings.filter (name.isPrefixOf ·.1)).map fun (_, found) =>
      switch found value
  else
    (Switch.spellings.filter (·.1 == text.take 2)).map fun (_, found) =>
      letters found (text.drop 2)

/-- What a text stands for before a separator; none if it may be short for
several switches. -/
def ofText? (text : Text) : Option Word :=
  let (name, value) := splitValue text
  if text.head? ≠ some dash then
    some (plain text)
  else
    match Switch.spellings.lookup text, Switch.spellings.lookup name with
    | some found, _ => some (switch found none)
    | none, some found => some (switch found value)
    | none, none =>
        if text.length = 1 then
          some (plain text)
        else
          match candidates text with
          | [word] => some word
          | [] =>
              let isPlain := isNegativeNumber text ||
                text.contains (CodePoint.ofChar ' ')
              some (if isPlain then plain text else unknown)
          | _ => none

def ofTexts? : List Text → Option (List Word)
  | [] => some []
  | text :: texts =>
      if text = separatorText then
        some (separator :: texts.map plain)
      else do
        let word ← ofText? text
        return word :: (← ofTexts? texts)

end Word

end PickleGraph.Command
