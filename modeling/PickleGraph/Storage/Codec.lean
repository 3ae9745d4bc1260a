import PickleGraph.Storage.Content

/-!
# Codecs

A codec is one of the compressed formats that a file can be in. Each has a
signature at the head of the file, but a signature is only a hint: a file is
taken to be compressed only if its first octet can be unpacked.
-/

namespace PickleGraph

inductive Codec
  | zfile
  | gzip
  | bzip2
  | xz
  | lzma
  | zlib
  deriving DecidableEq, Repr

namespace Codec

/-- All codecs, in the order in which their signatures are tried. -/
def all : List Codec :=
  [zfile, gzip, bzip2, xz, lzma, zlib]

def name : Codec → String
  | zfile => "zfile"
  | gzip => "gzip"
  | bzip2 => "bz2"
  | xz => "xz"
  | lzma => "lzma"
  | zlib => "zlib"

def ofName? (name : Text) : Option Codec :=
  all.find? fun codec => Text.ofString codec.name == name

/-! ## Signatures -/

def headSize : Nat := 8

/-- Whether the head of a file has the signature of a codec. A zlib stream
starts with a multiple of 31. -/
def signs (codec : Codec) (head : Bytes) : Bool :=
  match codec with
  | zfile => (Bytes.ofString "ZF0x").isPrefixOf head
  | gzip => [0x1F, 0x8B].isPrefixOf head
  | bzip2 => (Bytes.ofString "BZh").isPrefixOf head
  | xz => [0xFD, 0x37, 0x7A, 0x58, 0x5A].isPrefixOf head
  | lzma => [0x5D, 0x00].isPrefixOf head
  | zlib =>
      [0x78].isPrefixOf head && Bytes.toNatBE (head.take 2) % 31 == 0

/-! ## Unpacking -/

/-- The header of a zfile states the size of the content in hexadecimal, filled
up with spaces. -/
def zfileHeaderSize : Nat := 21

/-- The zlib stream in a zfile. One more space may stand before it. -/
def zfileBody (file : Bytes) : Bytes :=
  let body := file.drop zfileHeaderSize
  if body.head? = some 0x20 then body.drop 1 else body

def unpack (codec : Codec) (file : Bytes) : Content :=
  match codec with
  | zfile => .ofZlib (zfileBody file)
  | gzip => .ofGzip file
  | bzip2 => .ofBzip2 file
  | xz => .ofXz file
  | lzma => .ofLzma file
  | zlib => .ofZlib file

def detect (file : Bytes) : Option Codec :=
  match all.find? (signs · (file.take headSize)) with
  | none => none
  | some codec =>
      if (codec.unpack file).isFaulty then none else some codec

end Codec

end PickleGraph
