import PickleGraph.Command.Word
import PickleGraph.Number.Integer
import PickleGraph.Text.Basic

/-!
# Invocations

An invocation names one file and says how it is to be shown. A command line
that is no invocation asks for help or is refused, whichever comes first.
-/

namespace PickleGraph.Command

structure Invocation where
  file : Text
  isTraced : Bool := false
  depth : Int := 2
  encoding : Text := "ASCII"
  isPlain : Bool := false
  deriving Repr

inductive Rejection
  | help
  | misuse
  deriving DecidableEq, Repr

/-- What is known of an invocation while its words are read. -/
structure Draft where
  file? : Option Text := none
  settings : Invocation := { file := [] }
  hasSurplus : Bool := false

namespace Draft

def withFile (draft : Draft) (file : Text) : Draft :=
  match draft.file? with
  | none => { draft with file? := some file }
  | some _ => { draft with hasSurplus := true }

def withSurplus (draft : Draft) : Draft :=
  { draft with hasSurplus := true }

def finish (draft : Draft) : Except Rejection Invocation :=
  match draft.file?, draft.hasSurplus with
  | some file, false => .ok { draft.settings with file }
  | _, _ => .error .misuse

/-! ## Switches -/

def apply (draft : Draft) : Switch → Except Rejection Draft
  | .help => .error .help
  | .trace =>
      .ok { draft with settings.isTraced := true }
  | .noColor =>
      .ok { draft with settings.isPlain := true }
  | .verbose | .depth | .encoding => .ok draft

def applyValue (draft : Draft) (value : Text) :
    Switch → Except Rejection Draft
  | .depth =>
      match Integer.parseDecimal? value.numeralOctets with
      | some depth => .ok { draft with settings.depth := depth }
      | none => .error .misuse
  | .encoding => .ok { draft with settings.encoding := value }
  | .help | .trace | .noColor | .verbose => .error .misuse

def ofLetter? (letter : CodePoint) : Option Switch :=
  Switch.spellings.lookup [Word.dash, letter]

/-- The switches of some letters, and whether letters without one follow.
Nothing is attached to a letter. -/
def ofLetters : Text → Except Rejection (List Switch × Bool)
  | [] => .ok ([], false)
  | letter :: letters =>
      if letter = Word.dash then
        .error .misuse
      else
        match ofLetter? letter with
        | none => .ok ([], true)
        | some switch =>
            if letters.head? = some Word.equals then
              .error .misuse
            else
              (ofLetters letters).map fun (switches, hasMore) =>
                (switch :: switches, hasMore)

def applyLetters (draft : Draft) (switch : Switch) (letters : Text) :
    Except Rejection Draft := do
  let (further, hasMore) ← ofLetters letters
  let draft ← (switch :: further).foldlM apply draft
  return if hasMore then draft.withSurplus else draft

/-! ## Words -/

/-- Reads words in order. A separator goes with the file beside it, and the
value of a switch is attached to it or is the plain word after it. -/
def read (draft : Draft) : List Word → Except Rejection Invocation
  | [] => draft.finish
  | .plain text :: .separator :: words =>
      if draft.file?.isNone then
        (draft.withFile text).read words
      else
        draft.withSurplus.read words
  | .plain text :: words => (draft.withFile text).read words
  | .separator :: .plain text :: words =>
      if draft.file?.isNone then
        (draft.withFile text).read words
      else
        draft.withSurplus.read words
  | .separator :: words | .unknown :: words => draft.withSurplus.read words
  | .letters switch letters :: words => do
      (← draft.applyLetters switch letters).read words
  | .switch switch (some value) :: words => do
      (← draft.applyValue value switch).read words
  | .switch switch none :: .plain text :: words => do
      if switch.takesValue then
        (← draft.applyValue text switch).read words
      else
        (← draft.apply switch).read (.plain text :: words)
  | .switch switch none :: words => do
      if switch.takesValue then
        throw .misuse
      else
        (← draft.apply switch).read words
termination_by words => words.length

end Draft

namespace Invocation

def ofTexts (texts : List Text) : Except Rejection Invocation :=
  match Word.ofTexts? texts with
  | none => .error .misuse
  | some words => Draft.read {} words

end Invocation

end PickleGraph.Command
