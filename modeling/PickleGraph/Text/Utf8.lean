import PickleGraph.Text.Basic

/-!
# UTF-8

One lead octet fixes how many continuation octets follow and the range of the
first of them. A sequence is faulty at the first octet that breaks this, and
the fault covers the octets before it. The generalized form also admits
surrogate code points as three octets.
-/

namespace PickleGraph.Utf8

inductive Reason
  | invalidStart
  | invalidContinuation
  | unexpectedEnd
  deriving DecidableEq, Repr

/-- What stands at the head of a byte string, and how many octets it takes. -/
inductive Step
  | point (point : CodePoint) (width : Nat)
  | fault (width : Nat) (reason : Reason)
  deriving DecidableEq, Repr

/-! ## Decoding -/

def isContinuation (byte : UInt8) : Bool :=
  0x80 ≤ byte && byte ≤ 0xBF

/-- The number of continuation octets after a lead octet. -/
def continuationCount? (lead : UInt8) : Option Nat :=
  if lead < 0x80 then some 0
  else if lead < 0xC2 then none
  else if lead < 0xE0 then some 1
  else if lead < 0xF0 then some 2
  else if lead < 0xF5 then some 3
  else none

/-- Whether the first continuation octet is in range: overlong forms,
surrogates and numbers above `0x10FFFF` are excluded here. -/
def admitsSecond (lead second : UInt8) : Bool :=
  isContinuation second &&
    (if lead = 0xE0 then 0xA0 ≤ second
    else if lead = 0xED then second < 0xA0
    else if lead = 0xF0 then 0x90 ≤ second
    else if lead = 0xF4 then second < 0x90
    else true)

/-- The number that a lead octet contributes. -/
def leadBits (lead : UInt8) : Nat :=
  if lead < 0x80 then lead.toNat
  else if lead < 0xE0 then lead.toNat - 0xC0
  else if lead < 0xF0 then lead.toNat - 0xE0
  else lead.toNat - 0xF0

def appendBits (bits : Nat) (byte : UInt8) : Nat :=
  bits * 64 + (byte.toNat - 0x80)

/-- The sequence at the head of a non-empty byte string. -/
def next (lead : UInt8) (rest : Bytes) : Step :=
  match continuationCount? lead with
  | none => .fault 1 .invalidStart
  | some count =>
      let continuation :=
        match rest.take count with
        | [] => []
        | second :: others =>
            if admitsSecond lead second then
              second :: others.takeWhile isContinuation
            else
              []
      if continuation.length = count then
        .point (Fin.ofNat _ (continuation.foldl appendBits (leadBits lead)))
          (count + 1)
      else if continuation.length = rest.length then
        .fault (continuation.length + 1) .unexpectedEnd
      else
        .fault (continuation.length + 1) .invalidContinuation

/-- A surrogate code point in three octets at the head of a byte string. -/
def surrogate? : Bytes → Option CodePoint
  | lead :: second :: third :: _ =>
      if lead = 0xED ∧ 0xA0 ≤ second ∧ isContinuation second ∧
          isContinuation third then
        some (Fin.ofNat _
          (appendBits (appendBits (leadBits lead) second) third))
      else
        none
  | _ => none

/-- As `next`, with surrogates admitted. -/
def nextGeneralized (lead : UInt8) (rest : Bytes) : Step :=
  match surrogate? (lead :: rest) with
  | some point => .point point 3
  | none => next lead rest

structure Fault where
  position : Nat
  width : Nat
  reason : Reason
  deriving DecidableEq, Repr

/-- Decodes a byte string that starts at `position`, where `step` reads one
sequence. -/
def decodeFrom
    (step : UInt8 → Bytes → Step) (position : Nat) :
    Bytes → Except Fault Text
  | [] => .ok []
  | lead :: rest =>
      match step lead rest with
      | .fault width reason => .error ⟨position, width, reason⟩
      | .point point width =>
          (decodeFrom step (position + width) (rest.drop (width - 1))).map
            (point :: ·)
termination_by bytes => bytes.length
decreasing_by simp only [List.length_drop, List.length_cons]; omega

def decode (bytes : Bytes) : Except Fault Text :=
  decodeFrom next 0 bytes

/-- Decodes generalized UTF-8, which may hold surrogates. -/
def decodeGeneralized (bytes : Bytes) : Except Fault Text :=
  decodeFrom nextGeneralized 0 bytes

/-! ## Encoding -/

def continuationByte (bits : Nat) : UInt8 :=
  UInt8.ofNat (0x80 + bits % 64)

/-- The octets of one code point, a surrogate like any other. -/
def encodePoint (point : CodePoint) : Bytes :=
  let number := point.val
  if number < 0x80 then
    [UInt8.ofNat number]
  else if number < 0x800 then
    [UInt8.ofNat (0xC0 + number / 64), continuationByte number]
  else if number < 0x10000 then
    [UInt8.ofNat (0xE0 + number / 4096), continuationByte (number / 64),
      continuationByte number]
  else
    [UInt8.ofNat (0xF0 + number / 262144), continuationByte (number / 4096),
      continuationByte (number / 64), continuationByte number]

def encodeGeneralized (text : Text) : Bytes :=
  text.flatMap encodePoint

end PickleGraph.Utf8
