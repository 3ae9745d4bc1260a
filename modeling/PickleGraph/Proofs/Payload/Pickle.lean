import PickleGraph.Proofs.Cut.Machine
import PickleGraph.Proofs.Framing.Pending
import PickleGraph.Proofs.Relocation.Machine

/-!
# Pickles inside on their own

A pickle inside is decoded from the bytes that come next, whichever of them are
held by frames. The bytes that it takes make a whole pickle: wherever they
stand, they are decoded to the same value, and what follows them is left alone.
-/

namespace PickleGraph

open Actions

/-! ## Over the empty heap -/

mutual

theorem Value.shifted_empty (value : Value) :
    value.shifted Heap.empty.shift = value := by
  cases value with
  | tuple items =>
      rw [shifted_tuple, shiftedAll_empty items]
  | frozenset members =>
      rw [shifted_frozenset, shiftedAll_empty members]
  | float number mark =>
      show float number (if mark = 0 then 0 else mark) = _
      split <;> simp [*]
  | complex real imaginary mark =>
      show complex real imaginary (if mark = 0 then 0 else mark) = _
      split <;> simp [*]
  | _ => rfl

theorem Value.shiftedAll_empty (items : List Value) :
    items.map (Value.shifted Heap.empty.shift) = items := by
  cases items with
  | nil => rfl
  | cons item rest =>
      rw [List.map_cons, Value.shifted_empty item,
        Value.shiftedAll_empty rest]

end

theorem shiftedEntries_empty (entries : List (Value × Value)) :
    entries.map (shiftedEntry Heap.empty.shift) = entries := by
  refine (List.map_congr_left fun entry _ => ?_).trans (List.map_id _)
  exact Prod.ext (Value.shifted_empty _) (Value.shifted_empty _)

theorem Object.shifted_empty (object : Object) :
    object.shifted Heap.empty.shift = object := by
  have all := Value.shiftedAll_empty
  cases object with
  | list items =>
      refine congrArg list ((Array.map_congr_left fun item _ => ?_).trans
        (Array.map_id items))
      exact Value.shifted_empty item
  | dict ordered entries =>
      exact congrArg (dict ordered) (shiftedEntries_empty entries)
  | set members => exact congrArg set (all members)
  | record content =>
      simp only [shifted, Record.shifted, all, shiftedEntries_empty]
  | array content =>
      obtain ⟨type, shape, content, writable⟩ := content
      cases content with
      | raw data => rfl
      | items values =>
          simp only [shifted, NdArray.shifted, ArrayContent.shifted, all]
  | _ => rfl

theorem Heap.atop_empty (heap : Heap) : heap.atop .empty = heap := by
  have none_ : Heap.empty.objects = #[] := rfl
  have same : Object.shifted Heap.empty.shift = id :=
    funext Object.shifted_empty
  refine ext_objects rfl fun address => ?_
  rw [atop, same, none_, Array.map_id, Array.empty_append]

/-! ## Out of the frames -/

namespace Reader

/-- The second reader holds in one piece what the first one hands out. -/
def Unrolls (reader other : Reader) : Prop :=
  other.Holds reader.pending

theorem isFollowed_unrolls : IsFollowedInFull Unrolls where
  read := by
    intro reader other after count data holds success enough
    obtain ⟨whole, short⟩ := read_pending success
    obtain rfl : data.length = count := Nat.le_antisymm short enough
    rw [Unrolls, whole] at holds
    obtain ⟨later, left, read⟩ :=
      holds.read (lt_countLimit_iff.mp (inRange_of_read success))
    exact ⟨later, read, left⟩
  readLine := by
    intro reader other after line holds success ends
    obtain ⟨whole, isLine⟩ := readLine_pending success
    obtain ⟨content, rfl, noNewline⟩ := isLine ends
    rw [Unrolls, whole, List.append_assoc] at holds
    obtain ⟨later, left, read⟩ := holds.readLine noNewline
    exact ⟨later, read, left⟩

end Reader

namespace Execution

variable {options : Options}

/-- A pickle inside is decoded to the same value where the bytes stand in one
piece. -/
theorem nestedPickle_of_unrolls {reader other after : Reader}
    {heap made : Heap} {value : Value} (unrolls : reader.Unrolls other)
    (success : nestedPickle options ⟨reader, heap⟩ =
      .ok value ⟨after, made⟩) :
    ∃ later : Reader, later.Holds after.pending ∧
      nestedPickle options ⟨other, heap⟩ = .ok value ⟨later, made⟩ := by
  have mirrors : Decoding.Mirrors Reader.Unrolls .empty _ _ _ :=
    mirrors_nestedPickle Reader.isFollowed_unrolls options
  have start : Source.Mirrors Reader.Unrolls .empty ⟨reader, heap⟩
      ⟨other, heap⟩ :=
    ⟨unrolls, heap.atop_empty.symm⟩
  obtain ⟨⟨later, objects⟩, again, ends⟩ := mirrors _ _ _ _ start success
  obtain rfl : objects = made := ends.heap.trans made.atop_empty
  rw [value.shifted_empty] at again
  exact ⟨later, ends.reader, again⟩

/-! ## Without what follows -/

/-- The bytes are a pickle of the value: they are decoded to it whatever follows
them, and this is left. -/
def IsPickle (options : Options) (bytes : Bytes) (heap : Heap)
    (value : Value) (after : Heap) : Prop :=
  ∀ (rest : Bytes) (reader : Reader), reader.Holds (bytes ++ rest) →
    ∃ last : Reader, last.Holds rest ∧
      nestedPickle options ⟨reader, heap⟩ = .ok value ⟨last, after⟩

theorem holds_of_prolongs {more rest : Bytes} {length : Nat}
    {reader other : Reader} (holds : reader.Holds rest)
    (prolongs : Reader.Prolongs more length 0 reader other) :
    other.Holds (rest ++ more) := by
  obtain ⟨offset, position, rfl⟩ := holds
  cases prolongs with
  | bottom => exact ⟨offset, position, rfl⟩

theorem holds_nil_of_prolongs {more : Bytes} {length : Nat}
    {reader other : Reader} (holds : other.Holds more)
    (prolongs : Reader.Prolongs more length 0 reader other) :
    reader.Holds [] := by
  obtain ⟨offset, position, same⟩ := holds
  cases prolongs with
  | bottom place frame tally =>
      injection same with sameFile _ noFrame
      injection sameFile with sameRest
      exact ⟨_, _, by rw [List.append_left_eq_self.mp sameRest, noFrame]⟩

/-- A pickle that ends before the other bytes does not need them. -/
theorem nestedPickle_of_append {bytes rest : Bytes} {offset position : Nat}
    {last : Reader} {heap made : Heap} {value : Value}
    (success : nestedPickle options
      ⟨.unframer (.file (bytes ++ rest) offset none) position none, heap⟩ =
        .ok value ⟨last, made⟩)
    (left : last.Holds rest) :
    ∃ later : Reader, later.Holds [] ∧
      nestedPickle options
          ⟨.unframer (.file bytes offset none) position none, heap⟩ =
        .ok value ⟨later, made⟩ := by
  by_cases atEnd : rest = []
  · subst atEnd
    rw [List.append_nil] at success
    exact ⟨last, left, success⟩
  have tracks : Decoding.Tracks rest (position + bytes.length) 0
      Failure.IsBroken (nestedPickle options) :=
    tracks_nestedPickle options
  have start : Source.Prolongs rest (position + bytes.length) 0
      ⟨.unframer (.file bytes offset none) position none, heap⟩
      ⟨.unframer (.file (bytes ++ rest) offset none) position none, heap⟩ :=
    ⟨.bottom offset none rfl, rfl⟩
  rcases (tracks.alike _ _ start).of_ok_whole success with
    ⟨⟨later, objects⟩, ended, prolongs⟩ | ⟨_, _, _, _, isPast⟩
  · obtain rfl : objects = made := prolongs.heap
    exact ⟨later, holds_nil_of_prolongs left prolongs.reader, ended⟩
  · have shorter := isPast atEnd
    have unread : last.unread = rest := left.unread
    rw [show (⟨last, made⟩ : Source).reader.unread = rest from unread]
      at shorter
    exact absurd shorter (Nat.lt_irrefl _)

/-- What a pickle inside takes is a pickle on its own. -/
theorem isPickle_of_nestedPickle {source after : Source} {value : Value}
    (success : nestedPickle options source = .ok value after) :
    ∃ bytes, source.reader.pending = bytes ++ after.reader.pending ∧
      IsPickle options bytes source.heap value after.heap := by
  obtain ⟨bytes, taken⟩ := nestedPickle_pending success
  refine ⟨bytes, taken, ?_⟩
  rintro rest _ ⟨offset, position, rfl⟩
  have unrolls : source.reader.Unrolls
      (.unframer (.file (bytes ++ after.reader.pending) offset none)
        position none) :=
    ⟨offset, position, by rw [taken]⟩
  obtain ⟨last, left, whole⟩ := nestedPickle_of_unrolls unrolls success
  obtain ⟨later, ends, alone⟩ := nestedPickle_of_append whole left
  have start : Source.Prolongs rest (position + bytes.length) 0
      ⟨.unframer (.file bytes offset none) position none, source.heap⟩
      ⟨.unframer (.file (bytes ++ rest) offset none) position none,
        source.heap⟩ :=
    ⟨.bottom offset none rfl, rfl⟩
  have tracks : Decoding.Tracks rest (position + bytes.length) 0
      Failure.IsBroken (nestedPickle options) :=
    tracks_nestedPickle options
  obtain ⟨⟨further, objects⟩, again, prolongs⟩ :=
    (tracks.alike _ _ start).of_ok alone
  obtain rfl : after.heap = objects := prolongs.heap
  exact ⟨further, holds_of_prolongs ends prolongs.reader, again⟩

end Execution

end PickleGraph
