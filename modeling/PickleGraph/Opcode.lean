import PickleGraph.Text.Charset

/-!
# Opcodes

The one-byte tags of the pickle protocol, versions 0 to 5. Every opcode has a
code and a name of its own.
-/

namespace PickleGraph

inductive Opcode
  | mark | stop | pop | popMark | dup
  | float | int | binInt | binInt1 | binInt2 | long | long1 | long4 | binFloat
  | none | newTrue | newFalse
  | persId | binPersId | ext1 | ext2 | ext4
  | reduce | build | global | stackGlobal | inst | obj | newObj | newObjEx
  | string | binString | shortBinString
  | unicode | binUnicode | binUnicode8 | shortBinUnicode
  | binBytes | shortBinBytes | binBytes8 | byteArray8
  | nextBuffer | readonlyBuffer
  | list | emptyList | append | appends
  | dict | emptyDict | setItem | setItems
  | emptySet | addItems | frozenSet
  | tuple | emptyTuple | tuple1 | tuple2 | tuple3
  | get | binGet | longBinGet | put | binPut | longBinPut | memoize
  | proto | frame
  deriving DecidableEq, Repr

namespace Opcode

def highestProtocol : Nat := 5

def table : List (Opcode × UInt8 × String) :=
  [(mark, 0x28, "MARK"), (stop, 0x2E, "STOP"), (pop, 0x30, "POP"),
    (popMark, 0x31, "POP_MARK"), (dup, 0x32, "DUP"),
    (float, 0x46, "FLOAT"), (int, 0x49, "INT"), (binInt, 0x4A, "BININT"),
    (binInt1, 0x4B, "BININT1"), (long, 0x4C, "LONG"),
    (binInt2, 0x4D, "BININT2"), (none, 0x4E, "NONE"),
    (persId, 0x50, "PERSID"), (binPersId, 0x51, "BINPERSID"),
    (reduce, 0x52, "REDUCE"), (string, 0x53, "STRING"),
    (binString, 0x54, "BINSTRING"),
    (shortBinString, 0x55, "SHORT_BINSTRING"),
    (unicode, 0x56, "UNICODE"), (binUnicode, 0x58, "BINUNICODE"),
    (append, 0x61, "APPEND"), (build, 0x62, "BUILD"),
    (global, 0x63, "GLOBAL"), (dict, 0x64, "DICT"),
    (emptyDict, 0x7D, "EMPTY_DICT"), (appends, 0x65, "APPENDS"),
    (get, 0x67, "GET"), (binGet, 0x68, "BINGET"), (inst, 0x69, "INST"),
    (longBinGet, 0x6A, "LONG_BINGET"), (list, 0x6C, "LIST"),
    (emptyList, 0x5D, "EMPTY_LIST"), (obj, 0x6F, "OBJ"),
    (put, 0x70, "PUT"), (binPut, 0x71, "BINPUT"),
    (longBinPut, 0x72, "LONG_BINPUT"), (setItem, 0x73, "SETITEM"),
    (tuple, 0x74, "TUPLE"), (emptyTuple, 0x29, "EMPTY_TUPLE"),
    (setItems, 0x75, "SETITEMS"), (binFloat, 0x47, "BINFLOAT"),
    (proto, 0x80, "PROTO"), (newObj, 0x81, "NEWOBJ"),
    (ext1, 0x82, "EXT1"), (ext2, 0x83, "EXT2"), (ext4, 0x84, "EXT4"),
    (tuple1, 0x85, "TUPLE1"), (tuple2, 0x86, "TUPLE2"),
    (tuple3, 0x87, "TUPLE3"), (newTrue, 0x88, "NEWTRUE"),
    (newFalse, 0x89, "NEWFALSE"), (long1, 0x8A, "LONG1"),
    (long4, 0x8B, "LONG4"), (binBytes, 0x42, "BINBYTES"),
    (shortBinBytes, 0x43, "SHORT_BINBYTES"),
    (shortBinUnicode, 0x8C, "SHORT_BINUNICODE"),
    (binUnicode8, 0x8D, "BINUNICODE8"), (binBytes8, 0x8E, "BINBYTES8"),
    (emptySet, 0x8F, "EMPTY_SET"), (addItems, 0x90, "ADDITEMS"),
    (frozenSet, 0x91, "FROZENSET"), (newObjEx, 0x92, "NEWOBJ_EX"),
    (stackGlobal, 0x93, "STACK_GLOBAL"), (memoize, 0x94, "MEMOIZE"),
    (frame, 0x95, "FRAME"), (byteArray8, 0x96, "BYTEARRAY8"),
    (nextBuffer, 0x97, "NEXT_BUFFER"),
    (readonlyBuffer, 0x98, "READONLY_BUFFER")]

def ofCode? (code : UInt8) : Option Opcode :=
  (table.find? fun entry => entry.2.1 == code).map (·.1)

def name (opcode : Opcode) : String :=
  ((table.lookup opcode).map (·.2)).getD ""

def code (opcode : Opcode) : UInt8 :=
  ((table.lookup opcode).map (·.1)).getD 0

/-- At least two hexadecimal digits with a sign where needed. -/
def hexCode (code : Int) : String :=
  let digits (width : Nat) :=
    String.ofList (Charset.hexDigits width code.natAbs)
  if code < 0 then "0x-" ++ digits 1 else "0x" ++ digits 2

/-- The name of any code; codes without an opcode show their number. -/
def nameOfCode (code : Int) : String :=
  let known :=
    if 0 ≤ code ∧ code < 256 then
      ofCode? (UInt8.ofNat code.toNat)
    else
      Option.none
  match known with
  | some opcode => opcode.name
  | Option.none => "<unknown " ++ hexCode code ++ ">"

end Opcode

end PickleGraph
