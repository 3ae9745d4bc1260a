import PickleGraph.Opcode
import PickleGraph.Text.Escape
import PickleGraph.Text.Quoted

/-!
# Failures

A failed decode names its cause. Most causes are defects of the stream and have
a message and, once known, the byte offset where they were found. The others
are refusals of an operation on decoded values and faults of the underlying
byte source, which have a kind only.
-/

namespace PickleGraph

/-- Why an operation on values was refused. -/
inductive Refusal
  | wrongType
  | badValue
  | outOfRange
  | missingKey
  | missingPosition
  | missingAttribute
  | unknownName
  | undecodable
  | unencodable
  | badNotation
  | unimplemented
  | recursion
  deriving DecidableEq, Repr

namespace Refusal

/-- Refusals that blame the arguments of a call. -/
def blamesArguments : Refusal → Bool
  | wrongType | badValue | outOfRange | undecodable | unencodable => true
  | missingKey | missingPosition | missingAttribute | unknownName
  | badNotation | unimplemented | recursion => false

def ofCharsetFault : CharsetFault → Refusal
  | .notName => badValue
  | .unknownCharset | .unknownRecovery => unknownName
  | .unsuitableRecovery => wrongType
  | .undecodable .. => undecodable
  | .unencodable => unencodable

end Refusal

/-- Faults of a byte source while it is read. -/
inductive SourceFault
  | unexpectedEnd
  | damaged
  | damagedGzip
  | damagedDeflate
  | damagedLzma
  deriving DecidableEq, Repr

inductive PathFault
  | missing
  | isDirectory
  | notDirectory
  | nameTooLong
  | permissionDenied
  deriving DecidableEq, Repr

def PathFault.message (fault : PathFault) (path : Text) : Text :=
  let reason : Text :=
    match fault with
    | missing => "[Errno 2] No such file or directory: "
    | isDirectory => "[Errno 21] Is a directory: "
    | notDirectory => "[Errno 20] Not a directory: "
    | nameTooLong => "[Errno 36] File name too long: "
    | permissionDenied => "[Errno 13] Permission denied: "
  reason ++ Quoted.text path

inductive FailureClass
  | unsupportedOpcode
  | unknownType
  | malformedLiteral
  | truncatedStream
  | stackViolation
  | corruptPayload
  | storage
  deriving DecidableEq, Repr

/-- What is wrong with a stream. Texts in a cause are the quoted values that
the message shows. -/
inductive Cause
  -- opcodes and types
  | unknownOpcode (code : UInt8)
  | unsupportedOpcode (opcode : Opcode)
  | unknownType (module name : Text)
  -- reading
  | negativeRead (count : Int)
  | truncated (wanted got : Nat)
  | truncatedLine
  | frameExhausted
  | missingStop
  | frameOverlap
  | frameTooLarge (size : Nat)
  -- arguments
  | unsupportedProtocol (version : Nat)
  | negativeCount (opcode : String)
  | countTooLarge (opcode : String)
  | invalidArgument (opcode : String) (argument : Bytes)
  | unquotedString
  | badEscape (fault : Escape.Fault)
  | badLongEscape (fault : Escape.LongFault)
  | undecodableString (fault : Text)
  | invalidUtf8 (fault : Text)
  | invalidTypeReference (argument : Bytes)
  | negativeSlot
  -- stack
  | underflow
  | missingMark
  | openMarkAtStop
  | depthAtStop (depth : Nat)
  | missingSlot (slot : Int)
  | wrongTarget (opcode : Opcode) (typeName : Text)
  | oddItems
  | unhashable (typeName : Text)
  -- construction
  | typeNotText
  | missingClass
  | notArguments (opcode : Opcode)
  | notType (typeName : Text)
  | reconstructedNotType (typeName : Text)
  | constructorRefused (module name : Text)
  | sizeForBytes (typeName : Text)
  | unsupportedCharset (encoding : Text)
  | stateNotMapping (target typeName : Text)
  | stateNotSequence (target typeName : Text)
  -- conversion of records
  | missingTypeCode (value : Text)
  | badSubarray (value : Text)
  | badTimeUnit (value : Text)
  | bufferSize (length : Nat) (expected : Int)
  -- array payloads
  | payloadCut (wanted got : Nat)
  | payloadUnreadable (inner : Cause)
  | badMagic (found : Bytes)
  | unsupportedVersion (major minor : Nat)
  | headerNotText (charset : Charset) (fault : Text)
  | headerNotLiteral (text : Text)
  | headerIncomplete (text : Text)
  | badShape (value : Text)
  | badOrderFlag (value : Text)
  | badOrder (value : Text)
  | unsupportedDtype (value : Text)
  | unconvertibleDtype (value : Text) (inner : Cause) (offset : Option Nat)
  | rawObjects
  | nestedFailure (inner : Cause) (offset : Option Nat)
  | nestedRefusal
  | nestedResult (typeName : Text)
  | rebuildRefused (shape : Text)
  | missingFileName (name : Text)
  | missingStorage (fileName : Text)
  -- storage
  | unreadableSource
  | alreadyOpen (storage : Text)
  | cannotOpen (subject : Text) (fault : PathFault) (path : Text)
  | noLocation (storage fileName : Text)
  | directoryInName (fileName : Text)
  | unknownCodec (codec : Text)
  deriving Repr

namespace Cause

def failureClass : Cause → FailureClass
  | unknownOpcode _ | unsupportedOpcode _ => .unsupportedOpcode
  | unknownType .. => .unknownType
  | truncated .. | truncatedLine | frameExhausted | missingStop =>
      .truncatedStream
  | underflow | missingMark | openMarkAtStop | depthAtStop _ | missingSlot _
  | wrongTarget .. | oddItems | typeNotText | missingClass | notArguments _
  | notType _ | reconstructedNotType _ => .stackViolation
  | payloadCut .. | payloadUnreadable _ | badMagic _ | unsupportedVersion ..
  | headerNotText .. | headerNotLiteral _ | headerIncomplete _ | badShape _
  | badOrderFlag _ | badOrder _ | unsupportedDtype _ | unconvertibleDtype ..
  | rawObjects | nestedFailure .. | nestedRefusal | nestedResult _
  | rebuildRefused _ | missingFileName _ | missingStorage _ =>
      .corruptPayload
  | unreadableSource | alreadyOpen _ | cannotOpen .. | noLocation ..
  | directoryInName _ | unknownCodec _ => .storage
  | negativeRead _ | frameOverlap | frameTooLarge _ | unsupportedProtocol _
  | negativeCount _ | countTooLarge _ | invalidArgument .. | unquotedString
  | badEscape _ | badLongEscape _ | undecodableString _ | invalidUtf8 _
  | invalidTypeReference _ | negativeSlot | unhashable _
  | constructorRefused .. | sizeForBytes _ | unsupportedCharset _
  | stateNotMapping .. | stateNotSequence .. | missingTypeCode _
  | badSubarray _ | badTimeUnit _ | bufferSize .. => .malformedLiteral

/-- The note on the place of a failure, if it is known. -/
def offsetNote : Option Nat → Text
  | none => []
  | some offset =>
      List.flatten [" (at byte offset ", Text.ofNat offset, ")"]

def argumentPhrase : Opcode → Text
  | .newObj => "NEWOBJ expected an argument tuple"
  | .newObjEx => "NEWOBJ_EX expected an argument tuple and a keyword dict"
  | opcode =>
      Text.ofString opcode.name ++ Text.ofString " expected an argument tuple"

/-- The message of a cause, without its place. An asterisk stands for the
words of a refusal. -/
def message : Cause → Text
  | unknownOpcode code =>
      Text.ofString "unknown opcode " ++ Opcode.hexCode code.toNat
  | unsupportedOpcode opcode =>
      List.flatten ["unsupported opcode ", opcode.name, " ",
        Opcode.hexCode opcode.code.toNat]
  | unknownType module name =>
      List.flatten ["unsupported type '", module, ".", name, "'"]
  | negativeRead count =>
      Text.ofString "negative read length " ++ Text.ofInt count
  | truncated wanted got =>
      List.flatten ["stream truncated: wanted ", Text.ofNat wanted,
        " bytes, got ", Text.ofNat got]
  | truncatedLine =>
      "stream truncated inside a newline-terminated argument"
  | frameExhausted => "pickle exhausted before end of frame"
  | missingStop => "stream ended before the STOP opcode"
  | frameOverlap => "beginning of a new frame before end of current frame"
  | frameTooLarge size =>
      Text.ofString "frame size > sys.maxsize: " ++ Text.ofNat size
  | unsupportedProtocol version =>
      Text.ofString "unsupported pickle protocol: " ++ Text.ofNat version
  | negativeCount opcode =>
      Text.ofString opcode ++ " pickle has negative byte count"
  | countTooLarge opcode =>
      Text.ofString opcode ++
        " exceeds system's maximum size of 9223372036854775807 bytes"
  | invalidArgument opcode argument =>
      List.flatten ["invalid ", opcode, " argument ", Quoted.bytes argument]
  | unquotedString => "the STRING opcode argument must be quoted"
  | badEscape fault =>
      Text.ofString "invalid STRING escape: " ++ fault.message
  | badLongEscape fault =>
      Text.ofString "invalid UNICODE argument: " ++ fault.message
  | undecodableString fault =>
      Text.ofString "cannot decode 8-bit string: " ++ fault
  | invalidUtf8 fault => Text.ofString "invalid UTF-8 string: " ++ fault
  | invalidTypeReference argument =>
      List.flatten ["type reference ", Quoted.bytes argument,
        " is not valid UTF-8"]
  | negativeSlot => "negative PUT argument"
  | underflow => "unpickling stack underflow"
  | missingMark => "could not find MARK"
  | openMarkAtStop => "STOP reached inside an unclosed MARK frame"
  | depthAtStop depth =>
      List.flatten ["STOP reached with ", Text.ofNat depth,
        " values on the stack, expected 1"]
  | missingSlot slot =>
      Text.ofString "Memo value not found at index " ++ Text.ofInt slot
  | wrongTarget opcode typeName =>
      List.flatten [opcode.name, " applied to ", typeName]
  | oddItems => "odd number of items for a key/value sequence"
  | unhashable typeName =>
      List.flatten ["unhashable ", typeName,
        " used as a set member or key"]
  | typeNotText => "STACK_GLOBAL requires str"
  | missingClass => "OBJ without a class"
  | notArguments opcode => argumentPhrase opcode
  | notType typeName =>
      List.flatten ["cannot instantiate ", typeName,
        ", expected a type reference"]
  | reconstructedNotType typeName =>
      Text.ofString "_reconstructor expects a type reference, got " ++
        typeName
  | constructorRefused module name =>
      List.flatten ["in constructor for ", module, ".", name, ": *"]
  | sizeForBytes typeName =>
      typeName ++ "() of an integer size is not a serialized value"
  | unsupportedCharset encoding =>
      Text.ofString "unsupported _codecs.encode encoding " ++ encoding
  | stateNotMapping target typeName =>
      List.flatten [target, " expects a state mapping, got ", typeName]
  | stateNotSequence target typeName =>
      List.flatten [target, " expects a state tuple, got ", typeName]
  | missingTypeCode value =>
      Text.ofString "dtype record without a type code: " ++ value
  | badSubarray value =>
      Text.ofString "bad subarray description " ++ value
  | badTimeUnit value => Text.ofString "bad datetime metadata " ++ value
  | bufferSize length expected =>
      List.flatten ["ndarray buffer holds ", Text.ofNat length,
        " bytes, expected ", Text.ofInt expected]
  | payloadCut wanted got =>
      List.flatten ["array payload truncated: wanted ", Text.ofNat wanted,
        " bytes, got ", Text.ofNat got]
  | payloadUnreadable inner =>
      Text.ofString "array payload truncated: " ++ inner.message
  | badMagic found =>
      Text.ofString "bad array header magic " ++ Quoted.bytes found
  | unsupportedVersion major minor =>
      List.flatten ["unsupported array format version ", Text.ofNat major,
        ".", Text.ofNat minor]
  | headerNotText charset fault =>
      List.flatten ["array header is not valid ", charset.name, ": ", fault]
  | headerNotLiteral text =>
      List.flatten ["cannot parse array header ", Quoted.text text, ": *"]
  | headerIncomplete text =>
      Text.ofString "array header is missing required keys: " ++
        Quoted.text text
  | badShape value => Text.ofString "bad array shape " ++ value
  | badOrderFlag value => Text.ofString "bad fortran_order " ++ value
  | badOrder value => Text.ofString "bad array order " ++ value
  | unsupportedDtype value =>
      List.flatten ["unsupported array dtype ", value, ": *"]
  | unconvertibleDtype value inner offset =>
      List.flatten ["unsupported array dtype ", value, ": ", inner.message,
        offsetNote offset]
  | rawObjects => "object arrays cannot be stored as raw bytes"
  | nestedFailure inner offset =>
      List.flatten ["object array payload is corrupt: ", inner.message,
        offsetNote offset]
  | nestedRefusal => "object array payload is corrupt: *"
  | nestedResult typeName =>
      Text.ofString "object array payload decoded to " ++ typeName
  | rebuildRefused shape =>
      List.flatten ["cannot rebuild array of shape ", shape,
        " from buffer: *"]
  | missingFileName name => name ++ " without a file name"
  | missingStorage fileName =>
      List.flatten ["array file '", fileName,
        "' needs a storage to be read from"]
  | unreadableSource => "cannot read pickle stream: *"
  | alreadyOpen storage => storage ++ " is already open"
  | cannotOpen subject fault path =>
      List.flatten ["cannot open ", subject, ": ", fault.message path]
  | noLocation storage fileName =>
      List.flatten [storage, " has no location to find '", fileName, "' in"]
  | directoryInName fileName =>
      List.flatten ["sibling file name '", fileName,
        "' must not contain a directory"]
  | unknownCodec codec =>
      Text.ofString "unknown compression " ++ codec

end Cause

inductive Failure
  | defect (cause : Cause) (offset : Option Nat)
  | refused (refusal : Refusal)
  | source (fault : SourceFault)
  deriving Repr

namespace Failure

/-- A defect whose place is not known yet. -/
def ofCause (cause : Cause) : Failure := .defect cause none

instance : MonadLift (Except Refusal) (Except Failure) where
  monadLift := Except.mapError refused

def raise {α : Type} (cause : Cause) : Except Failure α :=
  .error (ofCause cause)

def describe (cause : Cause) (offset : Option Nat) : Text :=
  cause.message ++ Cause.offsetNote offset

def locate (offset : Nat) : Failure → Failure
  | .defect cause none => .defect cause (some offset)
  | failure => failure

end Failure

namespace Charset

/-- The words for undecodable octets: their values or positions, and the
reason. -/
def undecodableMessage
    (charset : Charset) (bytes : Bytes) (position : Nat) (reason : String) :
    Text :=
  let place : Text :=
    match bytes with
    | [byte] =>
        List.flatten ["byte 0x",
          Text.ofString (String.ofList (hexDigits 2 byte.toNat)),
          " in position ", Text.ofNat position]
    | _ =>
        List.flatten ["bytes in position ", Text.ofNat position, "-",
          Text.ofNat (position + bytes.length - 1)]
  let codec : Text :=
    match charset with
    | ascii => "'ascii'"
    | latin1 => "'latin-1'"
    | utf8 => "'utf-8'"
  List.flatten [codec, " codec can't decode ", place, ": ", reason]

/-- The words for a fault of UTF-8 in a byte string. -/
def utf8Message (bytes : Bytes) (fault : Utf8.Fault) : Text :=
  undecodableMessage utf8 ((bytes.drop fault.position).take fault.width)
    fault.position (reasonText fault.reason)

end Charset

end PickleGraph
