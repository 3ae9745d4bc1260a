import PickleGraph.Command.Run

/-!
# The command

Prints what a file holds. Files are read when the decoder asks for them: a run
on the files known so far tells which one is wanted next.
-/

namespace PickleGraph

namespace Command

/-- The files that have been asked for, with what reading them gave. -/
abbrev KnownFiles := List (Text × Except PathFault Bytes)

def KnownFiles.read (known : KnownFiles) : Files := fun path =>
  (known.lookup path).getD (.error .missing)

def encode (text : Text) : ByteArray :=
  ⟨(Utf8.encodeGeneralized text).toArray⟩

/-- What an error of the system says about the path that was opened, if it
says something about the path. -/
def faultOfError? : IO.Error → Option PathFault
  | .noFileOrDirectory .. => some .missing
  | .permissionDenied .. => some .permissionDenied
  | .inappropriateType _ 21 _ => some .isDirectory
  | .inappropriateType .. => some .notDirectory
  -- the runtime's own checks of a path give the number negated
  | .invalidArgument _ code _ =>
      if 0 - code = 36 then some .nameTooLong else none
  | _ => none

/-- Reads a file. Only faults of the path are answered: any other error of the
system ends the run, and so does a path that no file can have. -/
def readFile (path : Text) : IO (Except PathFault Bytes) := do
  let some name := path.toString?
    | throw (IO.userError "the path has characters that no file name has")
  try
    return .ok (← IO.FS.readBinFile name).toList
  catch error =>
    match faultOfError? error with
    | some fault => return .error fault
    | none => throw error

/-- The file that a decode asks for and that is not known yet. -/
def wanted? (invocation : Invocation) (known : KnownFiles) : Option Text :=
  match Files.load known.read invocation.options invocation.file with
  | .error (.defect (.cannotOpen _ _ path) _) =>
      if (known.lookup path).isSome then none else some path
  | _ => none

/-- Reads files until the decode asks for no more. -/
partial def gather (invocation : Invocation) (known : KnownFiles) :
    IO KnownFiles := do
  match wanted? invocation known with
  | none => return known
  | some path => gather invocation ((path, ← readFile path) :: known)

def defaultWidth : Int := 80

def terminal : IO Terminal := do
  let columns := ((← IO.getEnv "COLUMNS").bind String.toInt?).getD 0
  return {
    isColored := ← (← IO.getStdout).isTty
    width := if columns ≤ 0 then defaultWidth else columns }

def usage : String :=
  "usage: picklegraph [-h] [--trace] [--depth DEPTH] " ++
    "[--encoding NAME] [--no-color] [-v] FILE"

def execute (invocation : Invocation) : IO Nat := do
  let known ← gather invocation []
  let output ← IO.getStdout
  match invocation.run known.read (← terminal) [] with
  | .ok code lines =>
      output.write (encode (Printing.output lines))
      return code
  | .error _ lines =>
      output.write (encode (Printing.output lines))
      IO.eprintln "the value cannot be shown"
      return failed

def runTexts (texts : List Text) : IO Nat := do
  match Invocation.ofTexts texts with
  | .ok invocation => execute invocation
  | .error rejection => do
      IO.eprintln usage
      return rejection.exitCode

end Command

end PickleGraph

def main (args : List String) : IO UInt32 := do
  let texts := args.map PickleGraph.Text.ofString
  return UInt32.ofNat (← PickleGraph.Command.runTexts texts)
