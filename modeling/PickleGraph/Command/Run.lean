import PickleGraph.Command.Invocation
import PickleGraph.Display.Report
import PickleGraph.Storage.Basic

/-!
# Runs of the command

A run decodes a file and prints the value in it, or says why there is none. The
failures that have a message are printed; the others end the run.
-/

namespace PickleGraph.Command

structure Terminal where
  isColored : Bool
  width : Int

def success : Nat := 0
def failed : Nat := 1
def misused : Nat := 2

def Rejection.exitCode : Rejection → Nat
  | help => success
  | misuse => misused

open Display Printing

def complain (colored : Bool) (file : Text) (failure : Failure) :
    Printing Nat := do
  match failure with
  | .defect (.unknownType module name) offset =>
      let message := Failure.describe (.unknownType module name) offset
      line [paint colored .red (Text.ofString "[-] " ++ message)]
      line [paint colored .red (List.flatten ["[-] '", module, ".", name,
        "' is not in the type registry"])]
      return failed
  | .defect cause offset =>
      line [paint colored .red (List.flatten
        ["[-] Error: could not decode '", file, "': ",
          Failure.describe cause offset])]
      return failed
  | failure => throw failure

def present (colored : Bool) (depth : Int) (heap : Heap) (value : Value) :
    Printing Nat := do
  let shown ← text (Display.value colored heap true 0 value)
  line [paint colored .green "[+] Decoding complete. Final value: ", shown]
  match heap.record? value with
  | some (_, record) =>
      if 0 < depth then
        Display.record colored heap depth record
  | none => pure ()
  return success

def Invocation.options (invocation : Invocation) : Options where
  registry := .standard
  rules := { TextRules.ascii with charset := invocation.encoding }
  siblings? := none

/-- Decodes a file and prints what comes of it. Gives the exit code. -/
def Invocation.run (invocation : Invocation) (files : Files)
    (terminal : Terminal) : Printing Nat := do
  let colored := terminal.isColored && !invocation.isPlain
  let complain := complain colored invocation.file
  let opened : Except Failure (Storage × Content) := do
    let storage ← Storage.ofPath files invocation.file
    return (storage, ← storage.content files)
  match opened with
  | .error failure => complain failure
  | .ok (storage, content) => do
      let options := storage.options files invocation.options
      let start := Machine.ofReader content.reader .empty
        invocation.isTraced
      match Machine.load options start with
      | .ok value machine => do
          machine.history.forM (moment colored terminal.width)
          present colored invocation.depth machine.heap value
      | .error failure machine => do
          machine.history.forM (moment colored terminal.width)
          complain failure

end PickleGraph.Command
