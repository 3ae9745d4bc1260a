import PickleGraph.Proofs.Framing.Stream
import PickleGraph.Proofs.Framing.Upkeep

/-!
# The bytes that come next

A reader on other readers hands out what its frame holds and then what the
reader below it hands out. Whatever is read is the first part of these bytes,
and the rest of them comes next. A pickle inside takes some of them as well, and
with them what its last frame has left.
-/

namespace PickleGraph

open Actions

namespace Reader

variable {reader after below : Reader} {position count : Nat}
variable {data : Bytes}

/-- The bytes that a reader hands out from here on. -/
def pending : Reader → Bytes
  | file rest _ _ => rest
  | cursor below _ => below.pending
  | unframer below _ frame => (frame.map (·.rest)).getD [] ++ below.pending

@[simp] theorem pending_framed (below : Reader) (position : Nat)
    (frame : Frame) :
    (unframer below position (some frame)).pending =
      frame.rest ++ below.pending :=
  rfl

/-! ## Reading bytes -/

theorem read_pending_file {rest : Bytes} {offset : Nat}
    {ending : Option SourceFault}
    (success : (file rest offset ending).read count = .ok data after) :
    rest = data ++ after.pending ∧ data.length ≤ count := by
  have inRange := inRange_of_read success
  have natural : ¬ (count : Int) < 0 := by omega
  rw [read, readFile, if_neg (Int.not_le.mpr inRange)] at success
  simp only [if_neg natural, Int.toNat_natCast] at success
  have taken : ∀ place, rest = rest.take count ++
      (file (rest.drop count) place ending).pending :=
    fun _ => (List.take_append_drop count rest).symm
  cases ending with
  | none =>
      cases success
      exact ⟨taken _, List.length_take_le count rest⟩
  | some fault =>
      dsimp only at success
      split at success
      · cases success
      · cases success
        exact ⟨taken _, List.length_take_le count rest⟩

/-- What is read are the bytes that come next, and no more than asked for. -/
theorem read_pending (success : reader.read count = .ok data after) :
    reader.pending = data ++ after.pending ∧ data.length ≤ count := by
  induction reader generalizing data after with
  | file rest offset ending => exact read_pending_file success
  | cursor below position inductionHypothesis =>
      rw [read, if_neg (Int.not_lt.mpr (Int.natCast_nonneg count)),
        Int.toNat_natCast] at success
      obtain ⟨further, read, _, rfl⟩ := exactly_eq_ok_iff.mp success
      have taken := inductionHypothesis read
      exact taken
  | unframer below position frame inductionHypothesis =>
      have bare : ∀ {after : Reader},
          (unframer below position none).read count = .ok data after →
          below.pending = data ++ after.pending ∧ data.length ≤ count := by
        intro after success
        obtain ⟨further, read, _, rfl⟩ := read_unframed_eq_ok_iff.mp success
        have taken := inductionHypothesis read
        exact taken
      cases frame with
      | none => exact bare success
      | some frame =>
          rcases (read_framed_eq_ok_iff (inRange_of_read success)).mp success
            with ⟨empty, _, fromBelow⟩ | ⟨more, held, length, rfl⟩
          · rw [pending_framed, empty]
            exact bare fromBelow
          · rw [pending_framed, pending_framed, Frame.skip, held, ← length,
              List.drop_left, List.append_assoc]
            exact ⟨rfl, Nat.le_refl _⟩

/-- The next byte can always be read. -/
theorem read_of_pending {byte : UInt8} {more : Bytes}
    (held : reader.pending = byte :: more) :
    ∃ after : Reader, reader.read 1 = .ok [byte] after ∧
      after.pending = more := by
  induction reader with
  | file rest offset ending =>
      obtain rfl : rest = byte :: more := held
      cases ending with
      | none => exact ⟨_, rfl, rfl⟩
      | some fault => exact ⟨_, rfl, rfl⟩
  | cursor below position inductionHypothesis =>
      obtain ⟨after, read, left⟩ := inductionHypothesis held
      refine ⟨cursor after (position + 1), ?_, left⟩
      rw [Reader.read, if_neg (by decide), read]
      rfl
  | unframer below position frame inductionHypothesis =>
      have bare : below.pending = byte :: more →
          ∃ after : Reader,
            (unframer below position none).read 1 = .ok [byte] after ∧
              after.pending = more := by
        intro held
        obtain ⟨after, read, left⟩ := inductionHypothesis held
        exact ⟨_, read_unframed_eq_ok_iff.mpr
          ⟨after, read, Nat.le_refl 1, rfl⟩, left⟩
      cases frame with
      | none => exact bare held
      | some frame =>
          have inRange : ((1 : Nat) : Int) < countLimit := by decide
          rw [pending_framed] at held
          cases rest : frame.rest with
          | nil =>
              rw [rest] at held
              obtain ⟨after, read, left⟩ := bare held
              exact ⟨after, (read_framed_eq_ok_iff inRange).mpr
                (.inl ⟨rest, Nat.one_ne_zero, read⟩), left⟩
          | cons first others =>
              rw [rest] at held
              cases held
              refine ⟨_, (read_framed_eq_ok_iff inRange).mpr
                (.inr ⟨others, rest, rfl, rfl⟩), ?_⟩
              rw [pending_framed, Frame.skip, rest]
              rfl

/-! ## Reading lines and opening frames -/

theorem readLine_pending_file {rest : Bytes} {offset : Nat}
    {ending : Option SourceFault}
    (success : (file rest offset ending).readLine = .ok data after) :
    rest = data ++ after.pending ∧ data = (splitLine rest).1 := by
  have split := (splitLine_append rest).symm
  rw [readLine] at success
  cases ending with
  | none =>
      cases success
      exact ⟨split, rfl⟩
  | some fault =>
      dsimp only at success
      split at success
      · cases success
        exact ⟨split, rfl⟩
      · cases success

/-- A line that is read is the first of the bytes that come next. -/
theorem readLine_pending (success : reader.readLine = .ok data after) :
    reader.pending = data ++ after.pending ∧
      (endsLine data = true → IsLine data) := by
  induction reader generalizing data after with
  | file rest offset ending =>
      obtain ⟨whole, rfl⟩ := readLine_pending_file success
      exact ⟨whole, isLine_splitLine⟩
  | cursor below position inductionHypothesis =>
      rw [readLine] at success
      cases outcome : below.readLine with
      | error failure further =>
          rw [outcome] at success
          cases success
      | ok line further =>
          rw [outcome, wholeLine] at success
          split at success
          · cases success
            have taken := inductionHypothesis outcome
            exact taken
          · cases success
  | unframer below position frame inductionHypothesis =>
      have bare : ∀ {after : Reader},
          (unframer below position none).readLine = .ok data after →
          below.pending = data ++ after.pending ∧
            (endsLine data = true → IsLine data) := by
        intro after success
        obtain ⟨further, read, _, rfl⟩ :=
          readLine_unframed_eq_ok_iff.mp success
        have taken := inductionHypothesis read
        exact taken
      cases frame with
      | none => exact bare success
      | some frame =>
          rcases readLine_framed_eq_ok_iff.mp success with
            ⟨empty, fromBelow⟩ | ⟨more, held, isLine, rfl⟩
          · rw [pending_framed, empty]
            exact bare fromBelow
          · rw [pending_framed, pending_framed, Frame.skip, held,
              List.drop_left, List.append_assoc]
            exact ⟨rfl, fun _ => isLine⟩

/-! ## Pickles inside -/

/-- Only bytes that came next are handed out. -/
theorem isKept_pending (bytes : Bytes) :
    IsKept fun reader => reader.pending <:+ bytes where
  read here success := by
    rw [(read_pending success).1] at here
    exact (List.suffix_append _ _).trans here
  readLine here success := by
    rw [(readLine_pending success).1] at here
    exact (List.suffix_append _ _).trans here

end Reader

namespace Execution

/-- A pickle inside takes the first part of the bytes that come next. -/
theorem nestedPickle_pending {options : Options} {source after : Source}
    {value : Value}
    (success : nestedPickle options source = .ok value after) :
    ∃ bytes, source.reader.pending = bytes ++ after.reader.pending := by
  have stays : Decoding.StaysOver
      (fun reader => reader.pending <:+ source.reader.pending) 0
      (nestedPickle options) :=
    staysOver_nestedPickle (Reader.isKept_pending _) options
  obtain ⟨bytes, whole⟩ := stays.of_ok List.suffix_rfl success
  exact ⟨bytes, whole.symm⟩

/-! ## Opcodes -/

variable {machine next : Machine} {opcode : Opcode}

/-- The opcode that is read is the first of the bytes that come next. -/
theorem readOpcode_pending (success : readOpcode machine = .ok opcode next) :
    machine.source.reader.pending =
      opcode.code :: next.source.reader.pending := by
  obtain ⟨data, source, decoded, known, rfl⟩ :=
    readOpcode_eq_ok_iff.mp success
  obtain ⟨reader, read, rfl⟩ := Decoding.reading_eq_ok_iff.mp decoded
  obtain ⟨whole, short⟩ := Reader.read_pending read
  cases data with
  | nil => cases known
  | cons code rest =>
      obtain rfl : rest = [] := by
        rw [List.length_cons] at short
        exact List.length_eq_zero_iff.mp (by omega)
      obtain rfl : code = opcode.code := code_of_ofCode? known
      exact whole

theorem readOpcode_of_pending {more : Bytes}
    (held : machine.source.reader.pending = opcode.code :: more) :
    ∃ next : Machine, readOpcode machine = .ok opcode next ∧
      next.source.reader.pending = more := by
  obtain ⟨reader, read, left⟩ := Reader.read_of_pending held
  have decoded : Decoding.read 1 machine.source =
      .ok [opcode.code] { machine.source with reader } :=
    Decoding.reading_eq_ok_iff.mpr ⟨reader, read, rfl⟩
  exact ⟨_, readOpcode_eq_ok_iff.mpr
    ⟨_, _, decoded, ofCode?_code opcode, rfl⟩, left⟩

end Execution

end PickleGraph
