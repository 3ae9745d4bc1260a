import PickleGraph.Text.Charset
import PickleGraph.Text.Printable

/-!
# Quoted forms

Byte strings and texts as they stand in messages: between single quotes, or
between double quotes when only single quotes occur, with control characters
escaped.
-/

namespace PickleGraph.Quoted

def quoteFor (hasSingle hasDouble : Bool) : Char :=
  if hasSingle && !hasDouble then '"' else '\''

/-- An escape with its own letter, if a code has one or must be protected. -/
def shortEscape? (quote : Char) (code : Nat) : Option (List Char) :=
  if code = quote.toNat ∨ code = 0x5C then
    some ['\\', Char.ofNat code]
  else if code = 0x09 then
    some ['\\', 't']
  else if code = 0x0A then
    some ['\\', 'n']
  else if code = 0x0D then
    some ['\\', 'r']
  else
    none

/-! ## Byte strings -/

def byteBody (quote : Char) (byte : UInt8) : List Char :=
  match shortEscape? quote byte.toNat with
  | some escaped => escaped
  | none =>
      if 0x20 ≤ byte && byte < 0x7F then
        [Char.ofNat byte.toNat]
      else
        '\\' :: 'x' :: Charset.hexDigits 2 byte.toNat

def bytes (content : Bytes) : Text :=
  let quote := quoteFor (content.contains 0x27) (content.contains 0x22)
  Text.ofString (String.ofList
    ('b' :: quote :: (content.flatMap (byteBody quote) ++ [quote])))

/-! ## Texts -/

def pointBody
    (keep : CodePoint → Bool) (quote : Char) (point : CodePoint) : Text :=
  match shortEscape? quote point.val with
  | some escaped => escaped.map CodePoint.ofChar
  | none =>
      if keep point then
        [point]
      else
        (Charset.backslashPoint point).map CodePoint.ofChar

def textKeeping (keep : CodePoint → Bool) (content : Text) : Text :=
  let quote := quoteFor (content.contains 0x27) (content.contains 0x22)
  [CodePoint.ofChar quote] ++ content.flatMap (pointBody keep quote) ++
    [CodePoint.ofChar quote]

def text (content : Text) : Text :=
  textKeeping Text.isPrintable content

/-- Replaces every code point above the ASCII range by an escape. -/
def asciiOnly (content : Text) : Text :=
  content.flatMap fun point =>
    if point.val < 0x80 then
      [point]
    else
      (Charset.backslashPoint point).map CodePoint.ofChar

end PickleGraph.Quoted
