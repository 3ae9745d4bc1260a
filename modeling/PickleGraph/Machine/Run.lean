import PickleGraph.Catalog
import PickleGraph.Machine.Execution

/-!
# Runs of the machine

The machine executes instructions until a pickle ends. A failure without a place
happened at the opcode that was being executed.
-/

namespace PickleGraph

namespace Reader

/-- How many bytes a reader can still hand out. -/
def remaining : Reader → Nat
  | file rest _ _ => rest.length
  | cursor below _ => below.remaining
  | unframer below _ frame =>
      below.remaining + (frame.map (·.rest.length)).getD 0

def beneath : Reader → Reader
  | cursor below _ | unframer below _ _ => below
  | reader => reader

end Reader

namespace Execution

/-- A pickle that ends before its last opcode is truncated there. -/
def missingOpcode (offset : Nat) : Failure → Failure
  | .defect cause place =>
      if cause.failureClass = .truncatedStream then
        .defect .missingStop (some offset)
      else
        .defect cause place
  | failure => failure

def readOpcode : Execution Opcode := do
  let offset := ((← get).source.reader.tell?).getD 0
  modify fun machine => { machine with offset }
  let code ← decoding
    (Decoding.mapFailure (missingOpcode offset) (Decoding.read 1))
  let code := code.headD 0
  match Opcode.ofCode? code with
  | some opcode => return opcode
  | none => throw (.defect (.unknownOpcode code) (some offset))

def step (options : Options) (nested : Decoding Value) :
    Execution (Option Value) := do
  let opcode ← readOpcode
  let instruction ← decoding (Instruction.ofOpcode options.rules opcode)
  let result ← execute options nested instruction
  if result.isNone then
    modify (·.record opcode)
  return result

/-- Places a failure at the opcode that was being executed. -/
def placed {α : Type} (action : Execution α) : Execution α :=
  fun machine =>
    match action machine with
    | .ok result after => .ok result after
    | .error failure after =>
        let failure :=
          match failure with
          | .source _ => Failure.ofCause .unreadableSource
          | failure => failure
        .error (failure.locate after.offset) after

/-- How pickles inside others are decoded. -/
def nestedOptions (options : Options) : Options :=
  { registry := options.registry, names := options.names }

/-- Decodes one pickle of at most `steps` instructions. Every instruction takes
at least one byte, so a bound above the number of bytes is never met. -/
def run : (steps : Nat) → Options → Execution Value
  | 0, _ => placed (reject .missingStop)
  | steps + 1, options => do
      let nested : Decoding Value := fun source =>
        let machine := Machine.ofReader source.reader source.heap false
        match run steps (nestedOptions options) machine with
        | .ok value after =>
            .ok value ⟨after.source.reader.beneath, after.heap⟩
        | .error failure after =>
            .error failure ⟨after.source.reader.beneath, after.heap⟩
      match ← placed (step options nested) with
      | some value => return value
      | none => run steps options

end Execution

namespace Machine

def load (options : Options) : Execution Value := do
  modify restart
  Execution.run ((← get).source.reader.remaining + 1) options

end Machine

namespace Options

/-- The standard registry and texts in ASCII. -/
def standard : Options where
  registry := .standard

/-- Decodes one pickle of a reader. -/
def decodeReader (options : Options) (reader : Reader) :
    Except Failure (Value × Heap) :=
  match Machine.load options (Machine.ofReader reader .empty false) with
  | .ok value machine => .ok (value, machine.heap)
  | .error failure _ => .error failure

/-- Decodes one pickle of a byte string. Bytes after it are ignored. -/
def decode (options : Options) (content : Bytes) :
    Except Failure (Value × Heap) :=
  options.decodeReader (.ofBytes content)

end Options

end PickleGraph
