import PickleGraph.Decoding
import PickleGraph.Number.Decimal
import PickleGraph.Number.Integer
import PickleGraph.Opcode

/-!
# Instructions

An instruction is an opcode with its argument. The argument is read and checked
before the instruction touches the stack.
-/

namespace PickleGraph

inductive Instruction
  | protocol (version : Nat)
  | frame (size : Nat)
  | stop
  | push (value : Value)
  | pushFloat (number : Binary64)
  | pushObject (object : Object)
  | mark | pop | popMark | dup
  | list | dict | tuple | frozenSet
  | tupleOf (size : Nat)
  | append | appends | setItem | setItems | addItems
  | get (slot : Int)
  | put (slot : Int)
  | memoize
  | global (module name : Text)
  | stackGlobal
  | inst (module name : Text)
  | obj | newObj | newObjEx | reduce | build
  | readonlyBuffer

/-- How texts of eight-bit octets are decoded. -/
structure TextRules where
  charset : Text
  recovery : Text

namespace TextRules

def ascii : TextRules :=
  ⟨Text.ofString "ASCII", Text.ofString "strict"⟩

/-- Texts under the rule of this name are kept as byte strings. -/
def bytesRule : Text := Text.ofString "bytes"

/-- The value of an eight-bit string. -/
def decode (rules : TextRules) (content : Bytes) : Except Failure Value :=
  if rules.charset = bytesRule then
    .ok (.bytes content)
  else
    match Charset.decodeNamed rules.charset rules.recovery content with
    | .ok text => .ok (.str text)
    | .error (.undecodable charset bytes position reason) =>
        Failure.raise (.undecodableString
          (Charset.undecodableMessage charset bytes position reason))
    | .error fault => .error (.refused (.ofCharsetFault fault))

end TextRules

namespace Instruction

open Decoding

/-! ## Fields of arguments -/

def natural (width : Nat) : Decoding Nat := do
  return Bytes.toNatLE (← read width)

def signed (width : Nat) : Decoding Int := do
  return Bytes.toIntLE (← read width)

/-- The greatest size of anything in a stream. -/
def maxSize : Nat := 2 ^ 63 - 1

/-- The rest of a line without its newline. -/
def line : Decoding Bytes := do
  return (← readLine).dropLast

def counted (width : Nat) (opcode : Opcode) : Decoding Bytes := do
  let length ← natural width
  if maxSize < length then
    reject (.countTooLarge opcode.name)
  else
    read length

/-- Content after a signed length of four octets. -/
def countedSigned (name : String) : Decoding Bytes := do
  let length ← signed 4
  if length < 0 then
    reject (.negativeCount name)
  else
    read length.toNat

def utf8Text (content : Bytes) : Decoding Value :=
  match Utf8.decodeGeneralized content with
  | .ok text => return .str text
  | .error fault =>
      reject (.invalidUtf8 (Charset.utf8Message content fault))

/-! ## Lines -/

/-- A numeral of any base, or a decimal one with leading zeros. -/
def numeral (name : String) (digits : Bytes) : Decoding Int :=
  match Integer.parse? digits <|> Integer.parseDecimal? digits with
  | some number => return number
  | none => reject (.invalidArgument name digits)

/-- A numeral, or a truth value in two digits. -/
def numeralOrTruth (digits : Bytes) : Decoding Value := do
  if digits = Bytes.ofString "00" then
    return .bool false
  else if digits = Bytes.ofString "01" then
    return .bool true
  else
    return .int (← numeral "INT" digits)

/-- A numeral that may end in a letter `L`. -/
def longNumeral (digits : Bytes) : Decoding Int :=
  if digits.getLast? = some 0x4C then
    numeral "LONG" digits.dropLast
  else
    numeral "LONG" digits

def decimalNumber (digits : Bytes) : Decoding Binary64 :=
  match Decimal.parse? digits with
  | some number => return number
  | none => reject (.invalidArgument "FLOAT" digits)

/-- What stands between two equal quotes. -/
def unquote? (content : Bytes) : Option Bytes :=
  match content with
  | first :: rest =>
      if (first = 0x22 || first = 0x27) && rest.getLast? = some first then
        some rest.dropLast
      else
        none
  | [] => none

/-- A quoted string with escapes. -/
def quotedString (rules : TextRules) (content : Bytes) : Decoding Value :=
  match unquote? content with
  | none => reject .unquotedString
  | some body =>
      match Escape.unescape body with
      | .error fault => reject (.badEscape fault)
      | .ok octets => query fun _ => rules.decode octets

def escapedText (content : Bytes) : Decoding Value :=
  match Escape.unescapeLong content with
  | .ok text => return .str text
  | .error fault => reject (.badLongEscape fault)

/-- A line that is part of the name of a type. -/
def nameLine : Decoding Text := do
  let content ← line
  match Utf8.decode content with
  | .ok text => return text
  | .error _ => reject (.invalidTypeReference content)

/-! ## Protocols and frames -/

def protocolVersion : Decoding Instruction := do
  let version ← natural 1
  if Opcode.highestProtocol < version then
    reject (.unsupportedProtocol version)
  else
    return .protocol version

def frameSize : Decoding Instruction := do
  let size ← natural 8
  if maxSize < size then
    reject (.frameTooLarge size)
  else
    return .frame size

/-- A number after its width in octets. -/
def countedNumber (width : Nat) : Decoding Value :=
  if width = 1 then do
    return .int (Bytes.toIntLE (← read (← natural 1)))
  else do
    return .int (Bytes.toIntLE (← countedSigned "LONG"))

/-! ## Opcodes -/

/-- Reads the argument of an opcode. -/
def ofOpcode (rules : TextRules) (opcode : Opcode) :
    Decoding Instruction := do
  match opcode with
  | .proto => protocolVersion
  | .frame => frameSize
  | .stop => return stop
  | .none => return push .none
  | .newTrue => return push (.bool true)
  | .newFalse => return push (.bool false)
  | .int => return push (← numeralOrTruth (← line))
  | .binInt => return push (.int (← signed 4))
  | .binInt1 => return push (.int (← natural 1))
  | .binInt2 => return push (.int (← natural 2))
  | .long => return push (.int (← longNumeral (← line)))
  | .long1 => return push (← countedNumber 1)
  | .long4 => return push (← countedNumber 4)
  | .float => return pushFloat (← decimalNumber (← line))
  | .binFloat => return pushFloat (Binary64.ofBytesBE (← read 8))
  | .string => return push (← quotedString rules (← line))
  | .binString => do
      let content ← countedSigned opcode.name
      return push (← query fun _ => rules.decode content)
  | .shortBinString => do
      let content ← counted 1 opcode
      return push (← query fun _ => rules.decode content)
  | .unicode => return push (← escapedText (← line))
  | .binUnicode => return push (← utf8Text (← counted 4 opcode))
  | .binUnicode8 => return push (← utf8Text (← counted 8 opcode))
  | .shortBinUnicode => return push (← utf8Text (← counted 1 opcode))
  | .binBytes => return push (.bytes (← counted 4 opcode))
  | .shortBinBytes => return push (.bytes (← counted 1 opcode))
  | .binBytes8 => return push (.bytes (← counted 8 opcode))
  | .byteArray8 => return pushObject (.bytearray (← counted 8 opcode))
  | .readonlyBuffer => return readonlyBuffer
  | .emptyList => return pushObject (.list #[])
  | .emptyDict => return pushObject (.dict false [])
  | .emptySet => return pushObject (.set [])
  | .emptyTuple => return push (.tuple [])
  | .mark => return mark
  | .pop => return pop
  | .popMark => return popMark
  | .dup => return dup
  | .list => return list
  | .dict => return dict
  | .tuple => return tuple
  | .frozenSet => return frozenSet
  | .tuple1 => return tupleOf 1
  | .tuple2 => return tupleOf 2
  | .tuple3 => return tupleOf 3
  | .append => return append
  | .appends => return appends
  | .setItem => return setItem
  | .setItems => return setItems
  | .addItems => return addItems
  | .get => return get (← numeral "GET" (← line))
  | .binGet => return get (← natural 1)
  | .longBinGet => return get (← natural 4)
  | .put => return put (← numeral "PUT" (← line))
  | .binPut => return put (← natural 1)
  | .longBinPut => return put (← natural 4)
  | .memoize => return memoize
  | .global => return global (← nameLine) (← nameLine)
  | .stackGlobal => return stackGlobal
  | .inst => return inst (← nameLine) (← nameLine)
  | .obj => return obj
  | .newObj => return newObj
  | .newObjEx => return newObjEx
  | .reduce => return reduce
  | .build => return build
  | .persId | .binPersId | .ext1 | .ext2 | .ext4 | .nextBuffer =>
      reject (.unsupportedOpcode opcode)

end Instruction

end PickleGraph
