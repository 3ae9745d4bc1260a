import PickleGraph.Decoding
import PickleGraph.Dtype.OfRecord
import PickleGraph.Literal.Basic

/-!
# Headers of array files

An array file starts with a mark, a format version, the length of a header and
the header, which is the text of a mapping. It gives the element type, the shape
and the order of the elements that follow.
-/

namespace PickleGraph.Payload

open Decoding

structure Header where
  type : Dtype
  shape : List Nat
  firstFastest : Bool
  deriving Repr

/-! ## Reading -/

/-- Reads all of `count` bytes. A reader that knows its place names where the
bytes should have started. -/
def readExact (count : Nat) : Decoding Bytes := do
  let offset ← tell?
  let data ← mapFailure unreadable (Decoding.read count)
  if data.length < count then
    fail (.payloadCut count data.length) offset
  else
    return data
where
  unreadable : Failure → Failure
    | .defect cause offset =>
        if cause.failureClass = .truncatedStream then
          .defect (.payloadUnreadable cause) offset
        else
          .defect cause offset
    | failure => failure

def magic : Bytes :=
  0x93 :: Bytes.ofString "NUMPY"

/-- The width of the length of the header, by format version. -/
def lengthWidth? : Nat → Option Nat
  | 1 => some 2
  | 2 | 3 => some 4
  | _ => none

/-- The character set of a header, by format version. -/
def headerCharset (version : Nat) : Charset :=
  if version < 3 then .latin1 else .utf8

def headerText (charset : Charset) (content : Bytes) :
    Except Cause Text :=
  match charset with
  | .utf8 =>
      match Utf8.decode content with
      | .ok text => .ok text
      | .error fault =>
          .error (.headerNotText charset (Charset.utf8Message content fault))
  | _ => .ok (Text.ofLatin1 content)

/-! ## Contents -/

/-- The value that the text of a header denotes. -/
def literalValue (names : CharacterNames) (offset : Option Nat) (text : Text) :
    Decoding Value :=
  let malformed : Failure := .defect (.headerNotLiteral text) offset
  match Literal.parse? names text with
  | none => throw malformed
  | some literal =>
      mapFailure
        (fun failure =>
          match failure with
          | .refused .wrongType | .refused .badValue
          | .refused .badNotation => malformed
          | failure => failure)
        (make literal.evaluate)

/-- The extents of a shape: a tuple or a list of natural numbers. -/
def shapeOf? (heap : Heap) (value : Value) : Option (List Nat) :=
  let extent? : Value → Option Nat
    | .int number => if 0 ≤ number then some number.toNat else none
    | _ => none
  match value with
  | .tuple items => items.mapM extent?
  | .object address =>
      match heap.get address with
      | .list items => items.toList.mapM extent?
      | _ => none
  | _ => none

def checkShape (value : Value) (offset : Option Nat) :
    Decoding (List Nat) := do
  let heap ← heap
  match shapeOf? heap value with
  | some shape => return shape
  | none => fail (.badShape (← ask (·.quote value))) offset

/-- A description of a type in which every field of a list is a tuple. -/
def withTupleFields (value : Value) : Decoding Value := do
  let heap ← heap
  match value with
  | .object address =>
      match heap.get address with
      | .list items => do
          let fields ← items.mapM fun item => do
            return Value.tuple (← make (·.iterate item))
          alloc (.list fields)
      | _ => return value
  | _ => return value

/-- The header that a mapping gives. -/
def headerOf
    (entries : List (Value × Value)) (offset : Option Nat)
    (missing : Cause) : Decoding Header := do
  let entry? (key : String) := Entries.findText? key entries
  match entry? "descr", entry? "fortran_order", entry? "shape" with
  | some description, some order, some shape => do
      let shape ← checkShape shape offset
      match order with
      | .bool firstFastest => do
          let description ← withTupleFields description
          let type ← query (·.payloadDtype description)
          return ⟨type, shape, firstFastest⟩
      | order => fail (.badOrderFlag (← ask (·.quote order))) offset
  | _, _, _ => fail missing offset

/-! ## Headers -/

def readHeader (names : CharacterNames) : Decoding Header := do
  let offset ← tell?
  let found ← readExact magic.length
  if found ≠ magic then
    fail (.badMagic found) offset
  else
    let version ← readExact 2
    let major := (version.headD 0).toNat
    let minor := (version.getLastD 0).toNat
    match lengthWidth? major with
    | none => fail (.unsupportedVersion major minor) offset
    | some width => do
        let length := Bytes.toNatLE (← readExact width)
        let content ← readExact length
        match headerText (headerCharset major) content with
        | .error cause => fail cause offset
        | .ok text => do
            let value ← literalValue names offset text
            match (← heap).entries? value with
            | some entries => headerOf entries offset (.headerIncomplete text)
            | none => fail (.headerIncomplete text) offset

end PickleGraph.Payload
