import PickleGraph.Proofs.Names.Listing
import PickleGraph.Proofs.Registry.Extension
import PickleGraph.Proofs.Storage.Feeding
import PickleGraph.Proofs.Trace.Offset
import PickleGraph.Storage.Basic

/-!
# Files that are compressed or not

A file is taken for what it is. A pickle starts with an opcode, and no signature
of a codec does, but for one that a pickle can have by chance. A compressed file
has the signature of one codec only. Either way the file is decoded to what its
pickle is decoded to in memory.
-/

namespace PickleGraph

open Actions Compression

/-! ## The first opcodes -/

namespace Execution

variable {options : Options} {content given : Bytes}
variable {machine after : Machine} {value : Value}

/-- A pickle that is decoded has an opcode where it starts. -/
theorem exists_opcode_of_runToEnd
    (hasGiven : machine.source.reader.HasGiven content given)
    (finished : runToEnd options machine = .ok value after) :
    ∃ opcode, content[given.length]? = some opcode.code ∧
      ∃ middle result next, readOpcode machine = .ok opcode middle ∧
        middle.source.reader.HasGiven content (given ++ [opcode.code]) ∧
        perform options (nestedPickle options) opcode middle =
          .ok result next ∧
        (result = none → runToEnd options next = .ok value after) := by
  rw [runToEnd_eq] at finished
  obtain ⟨result, next, placedStep, rest⟩ := bind_eq_ok_iff.mp finished
  have stepped := placed_eq_ok_iff.mp placedStep
  rw [step_eq] at stepped
  obtain ⟨opcode, middle, read, performed⟩ := bind_eq_ok_iff.mp stepped
  obtain ⟨_, isCode, _, middleGiven⟩ := readOpcode_isTraced hasGiven read
  refine ⟨opcode, isCode, middle, result, next, read, middleGiven,
    performed, ?_⟩
  rintro rfl
  exact rest

/-- An empty list is made without reading on. -/
theorem reader_of_emptyList {nested : Decoding Value} {middle : Machine}
    {result : Option Value}
    (performed : perform options nested .emptyList middle =
      .ok result after) :
    result = none ∧ after.source.reader = middle.source.reader := by
  obtain ⟨instruction, further, last, argued, executed, rfl⟩ :=
    perform_eq_ok_iff.mp performed
  cases argued
  cases executed
  exact ⟨rfl, rfl⟩

/-- An empty list is followed by another opcode. -/
theorem exists_opcode_after_emptyList
    (hasGiven : machine.source.reader.HasGiven content given)
    (isEmptyList : content[given.length]? = some Opcode.emptyList.code)
    (finished : runToEnd options machine = .ok value after) :
    ∃ opcode : Opcode, content[given.length + 1]? = some opcode.code := by
  obtain ⟨opcode, isCode, middle, result, next, _, middleGiven, performed,
    rest⟩ := exists_opcode_of_runToEnd hasGiven finished
  have same : opcode = .emptyList :=
    code_injective (Option.some.inj (isCode.symm.trans isEmptyList))
  subst same
  obtain ⟨rfl, sameReader⟩ := reader_of_emptyList performed
  rw [← sameReader] at middleGiven
  obtain ⟨following, isFollowing, _⟩ :=
    exists_opcode_of_runToEnd middleGiven (rest rfl)
  rw [List.length_append] at isFollowing
  exact ⟨following, isFollowing⟩

end Execution

/-! ## Signatures -/

namespace Codec

variable {codec : Codec} {file head content : Bytes}

/-- The first octet of a signature. -/
def mark : Codec → UInt8
  | zfile => 0x5A
  | gzip => 0x1F
  | bzip2 => 0x42
  | xz => 0xFD
  | lzma => 0x5D
  | zlib => 0x78

theorem mark_injective : Function.Injective mark := by
  intro first second
  cases first <;> cases second <;> decide

theorem head?_of_prefix {first : UInt8} {rest : Bytes}
    (isPrefix : (first :: rest).isPrefixOf head = true) :
    head.head? = some first := by
  obtain ⟨more, rfl⟩ := List.isPrefixOf_iff_prefix.mp isPrefix
  rfl

/-- A signature starts with its mark. -/
theorem head?_of_signs (signed : codec.signs head = true) :
    head.head? = some codec.mark := by
  cases codec with
  | zlib => exact head?_of_prefix (Bool.and_eq_true_iff.mp signed).1
  | _ => exact head?_of_prefix signed

/-- No file has the signatures of two codecs. -/
theorem find?_of_signs (signed : codec.signs head = true) :
    all.find? (signs · head) = some codec := by
  cases found : all.find? (signs · head) with
  | none =>
      have listed : codec ∈ all := by cases codec <;> decide
      exact absurd signed (List.find?_eq_none.mp found codec listed)
  | some other =>
      have signedToo := List.find?_some found
      have marked := head?_of_signs signedToo
      rw [head?_of_signs signed] at marked
      exact congrArg some (mark_injective (Option.some.inj marked)).symm

/-- A file with a signature that can be unpacked is taken to be compressed. -/
theorem detect_of_signs (signed : codec.signs (file.take headSize) = true)
    (unpacked : codec.unpack file = .ofBytes content) :
    detect file = some codec := by
  unfold detect
  rw [find?_of_signs signed]
  dsimp only
  rw [unpacked, Content.isFaulty, Content.ofBytes]
  simp only [Option.isSome_none, Bool.and_false, Bool.false_eq_true, if_false]

/-! ## Pickles -/

/-- A pickle is not taken to be compressed. -/
theorem not_signs_of_decode {options : Options} {value : Value} {heap : Heap}
    (decoded : options.decode content = .ok (value, heap))
    (notBzip2 : ¬ Bytes.ofString "BZh" <+: content) :
    codec.signs (content.take headSize) = false := by
  refine Bool.eq_false_iff.mpr fun signed => ?_
  obtain ⟨last, finished, _⟩ := Execution.decode_eq_ok_iff.mp decoded
  have hasGiven : (Execution.startOn content).source.reader.HasGiven content
      [] := Reader.hasGiven_ofBytes content
  obtain ⟨opcode, isCode, _⟩ :=
    Execution.exists_opcode_of_runToEnd hasGiven finished
  have marked : opcode.code = codec.mark := by
    have marked := head?_of_signs signed
    rw [List.head?_take, if_neg (by decide)] at marked
    rw [List.length_nil, ← List.head?_eq_getElem?, marked] at isCode
    exact (Option.some.inj isCode).symm
  have known : (Opcode.ofCode? codec.mark).isSome = true := by
    rw [← marked, Execution.ofCode?_code]
    rfl
  cases codec with
  | zfile => exact absurd known (by decide)
  | gzip => exact absurd known (by decide)
  | bzip2 =>
      have isPrefix := List.isPrefixOf_iff_prefix.mp signed
      exact notBzip2 (isPrefix.trans (List.take_prefix _ _))
  | xz => exact absurd known (by decide)
  | lzma =>
      obtain ⟨following, isFollowing⟩ :=
        Execution.exists_opcode_after_emptyList hasGiven
          (isCode.trans (congrArg some marked)) finished
      obtain ⟨more, held⟩ := (List.isPrefixOf_iff_prefix.mp signed).trans
        (List.take_prefix headSize content)
      rw [← held] at isFollowing
      have knownToo : (Opcode.ofCode? 0x00).isSome = true := by
        rw [Option.some.inj isFollowing, Execution.ofCode?_code]
        rfl
      exact absurd knownToo (by decide)
  | zlib => exact absurd known (by decide)

theorem detect_of_decode {options : Options} {value : Value} {heap : Heap}
    (decoded : options.decode content = .ok (value, heap))
    (notBzip2 : ¬ Bytes.ofString "BZh" <+: content) :
    detect content = none := by
  have unsigned : all.find? (signs · (content.take headSize)) = none :=
    List.find?_eq_none.mpr fun codec _ =>
      Bool.eq_false_iff.mp (not_signs_of_decode decoded notBzip2)
  unfold detect
  rw [unsigned]

/-! ## Packed contents -/

/-- The file has the signature of the codec and is unpacked to the content. A
zlib stream may have anything behind it. -/
inductive Packs (content : Bytes) : Codec → (file : Bytes) → Prop
  | signed {codec : Codec} {file : Bytes} :
      codec ≠ zfile → codec.signs (file.take headSize) = true →
      codec.unpack file = .ofBytes content → Packs content codec file
  | zlib {file rest : Bytes} :
      Codec.zlib.signs (file.take headSize) = true →
      Outcome.of Zlib.stream file = ⟨content, .complete rest⟩ →
      Packs content .zlib file
  | zfile {header spaces stream rest : Bytes} :
      header.length = zfileHeaderSize →
      Bytes.ofString "ZF0x" <+: header → spaces = [] ∨ spaces = [0x20] →
      Outcome.of Zlib.stream stream = ⟨content, .complete rest⟩ →
      Packs content .zfile (header ++ (spaces ++ stream))

theorem method_of_header {tape after : Tape}
    (success : Zlib.header tape = .ok () after) :
    ∃ method : UInt8, tape.rest.head? = some method ∧
      method.toNat % 16 = 8 := by
  obtain ⟨method, _, first, success⟩ := bind_eq_ok_iff.mp success
  obtain ⟨flags, _, _, success⟩ := bind_eq_ok_iff.mp success
  obtain ⟨_, _, _, success⟩ := bind_eq_ok_iff.mp success
  obtain ⟨_, _, required, _⟩ := bind_eq_ok_iff.mp success
  refine ⟨method, ?_, ?_⟩
  · unfold Unpacking.octet at first
    split at first
    · cases first
    · next byte rest held =>
        cases first
        rw [held]
        rfl
  · unfold require at required
    split at required
    · next isDeflated => exact isDeflated.1
    · cases required

/-- A zlib stream does not start with a space. -/
theorem head?_ne_space {stream rest : Bytes}
    (isStream : Outcome.of Zlib.stream stream = ⟨content, .complete rest⟩) :
    stream.head? ≠ some 0x20 := by
  unfold Outcome.of at isStream
  split at isStream
  · next tape success =>
      obtain ⟨_, _, header, _⟩ := bind_eq_ok_iff.mp success
      obtain ⟨method, isFirst, isDeflated⟩ := method_of_header header
      intro isSpace
      cases isFirst.symm.trans isSpace
      exact absurd isDeflated (by decide)
  · next stop tape _ => cases stop <;> cases isStream

theorem zfileBody_eq {header spaces stream rest : Bytes}
    (length : header.length = zfileHeaderSize)
    (atMostOne : spaces = [] ∨ spaces = [0x20])
    (isStream : Outcome.of Zlib.stream stream = ⟨content, .complete rest⟩) :
    zfileBody (header ++ (spaces ++ stream)) = stream := by
  unfold zfileBody
  dsimp only
  rw [List.drop_left' length]
  rcases atMostOne with rfl | rfl
  · rw [List.nil_append, if_neg (head?_ne_space isStream)]
  · rfl

theorem Packs.signs (packs : Packs content codec file) :
    codec.signs (file.take headSize) = true := by
  cases packs with
  | signed _ signed _ => exact signed
  | zlib signed _ => exact signed
  | @zfile header spaces stream rest length isPrefix _ _ =>
      refine List.isPrefixOf_iff_prefix.mpr ?_
      have short : (Bytes.ofString "ZF0x").length ≤ headSize := by decide
      exact List.prefix_take_iff.mpr
        ⟨isPrefix.trans (List.prefix_append _ _), short⟩

theorem Packs.unpack (packs : Packs content codec file) :
    codec.unpack file = .ofBytes content := by
  cases packs with
  | signed _ _ unpacked => exact unpacked
  | zlib _ isStream => exact Content.ofZlib_eq isStream
  | zfile length _ atMostOne isStream =>
      unfold Codec.unpack
      rw [zfileBody_eq length atMostOne isStream]
      exact Content.ofZlib_eq isStream

end Codec

/-! ## Files -/

/-- There is a file with this content at the path. -/
structure Files.Holds (files : Files) (path : Text) (file : Bytes) : Prop
    where
  isPlace : checkPath path = .ok ()
  isThere : files path = .ok file

namespace Storage

variable {files : Files} {path : Text} {file content : Bytes}

theorem fetch_eq (holds : files.Holds path file) (subject : Text) :
    files.fetch subject path = .ok file := by
  unfold Files.fetch
  rw [holds.isPlace]
  dsimp only
  rw [holds.isThere]

theorem ofPath_file (holds : files.Holds path file)
    (isPlain : Codec.detect file = none) :
    ofPath files path = .ok ⟨.file, some path⟩ := by
  unfold ofPath
  rw [fetch_eq holds]
  show Except.ok (Storage.mk _ _) = _
  rw [isPlain]

theorem ofPath_compressed {codec : Codec} (holds : files.Holds path file)
    (isPacked : Codec.detect file = some codec) :
    ofPath files path =
      .ok ⟨.compressed (Text.ofString codec.name), some path⟩ := by
  unfold ofPath
  rw [fetch_eq holds]
  show Except.ok (Storage.mk _ _) = _
  rw [isPacked]

theorem content_file (holds : files.Holds path file) :
    Storage.content ⟨.file, some path⟩ files = .ok (.ofBytes file) := by
  have read : Storage.file ⟨.file, some path⟩ files = .ok file :=
    fetch_eq holds _
  unfold Storage.content
  dsimp only
  rw [read]
  rfl

theorem content_compressed (codec : Codec) (holds : files.Holds path file) :
    Storage.content ⟨.compressed (Text.ofString codec.name), some path⟩
      files = .ok (codec.unpack file) := by
  have read : Storage.file
      ⟨.compressed (Text.ofString codec.name), some path⟩ files =
        .ok file := fetch_eq holds _
  have known : Codec.ofName? (Text.ofString codec.name) = some codec := by
    cases codec <;> decide
  unfold Storage.content
  dsimp only
  rw [known]
  dsimp only
  rw [read]
  rfl

/-- Beside a pickle in memory there are no files. -/
theorem extends_ofMemory (storage : Storage) (options : Options) :
    (Storage.options ⟨.memory content, none⟩ files options).Extends
      (storage.options files options) where
  registry := fun _ _ known => known
  rules := rfl
  names := rfl
  opens := by
    rintro name reader ⟨siblings, isSiblings, opened⟩
    cases isSiblings
    cases opened

/-- A storage with the content of a pickle is decoded like the pickle. -/
theorem decode_eq_of_content {storage : Storage} {options : Options}
    {value : Value} {heap : Heap}
    (decoded : Storage.decode ⟨.memory content, none⟩ files options =
      .ok (value, heap))
    (hasContent : storage.content files = .ok (.ofBytes content)) :
    storage.decode files options = .ok (value, heap) := by
  unfold Storage.decode
  rw [hasContent]
  exact Execution.decodeReader_of_wider (extends_ofMemory storage options) _
    decoded

end Storage

namespace Files

/-- A pickle that is decoded in memory is decoded alike from a file that holds
it, and the file is not taken to be compressed unless it begins like a bzip2
file. From a file that a codec packs it into it is decoded alike as well, and
the file is taken to be packed by that codec. -/
theorem load_of_decode (files : Files) (options : Options) (content : Bytes)
    {value : Value} {heap : Heap}
    (decoded : Storage.decode ⟨.memory content, none⟩ files options =
      .ok (value, heap)) :
    (¬ Bytes.ofString "BZh" <+: content →
      ∀ path, files.Holds path content →
        Storage.ofPath files path = .ok ⟨.file, some path⟩ ∧
        files.load options path = .ok (value, heap)) ∧
    ∀ codec file, Codec.Packs content codec file →
      ∀ path, files.Holds path file →
        Storage.ofPath files path =
          .ok ⟨.compressed (Text.ofString codec.name), some path⟩ ∧
        files.load options path = .ok (value, heap) := by
  constructor
  · intro notBzip2 path holds
    have opened := Storage.ofPath_file holds
      (Codec.detect_of_decode decoded notBzip2)
    refine ⟨opened, ?_⟩
    unfold Files.load
    rw [opened]
    exact Storage.decode_eq_of_content decoded (Storage.content_file holds)
  · intro codec file packs path holds
    have opened := Storage.ofPath_compressed holds
      (Codec.detect_of_signs packs.signs packs.unpack)
    refine ⟨opened, ?_⟩
    unfold Files.load
    rw [opened]
    refine Storage.decode_eq_of_content decoded ?_
    rw [Storage.content_compressed codec holds, packs.unpack]

/-- The pickle of the none value in a zlib stream. -/
def packedNone : Bytes :=
  [0x78, 0x01, 0x01, 0x02, 0x00, 0xFD, 0xFF, 0x4E, 0x2E, 0x00, 0xCC, 0x00,
    0x7D]

/-- The same pickle in an xz file whose block goes through a delta filter. -/
def filteredNone : Bytes :=
  [0xFD, 0x37, 0x7A, 0x58, 0x5A, 0x00, 0x00, 0x01, 0x69, 0x22, 0xDE, 0x36,
    0x02, 0x01, 0x03, 0x01, 0x00, 0x21, 0x01, 0x0C, 0x03, 0xD9, 0xA6, 0x13,
    0x01, 0x00, 0x01, 0x4E, 0xE0, 0x00, 0x00, 0x00, 0xBB, 0x7D, 0xF5, 0xF3,
    0x00, 0x01, 0x16, 0x02, 0xD0, 0x61, 0x10, 0xD2, 0x90, 0x42, 0x99, 0x0D,
    0x01, 0x00, 0x00, 0x00, 0x00, 0x01, 0x59, 0x5A]

/-- A directory with the pickle of the none value, its zlib stream, and its xz
file. -/
def plainAndPacked : Files := fun path =>
  if path = Text.ofString "plain" then
    .ok [0x4E, 0x2E]
  else if path = Text.ofString "filtered" then
    .ok filteredNone
  else
    .ok packedNone

theorem load_plainAndPacked :
    Storage.decode ⟨.memory [0x4E, 0x2E], none⟩ plainAndPacked .standard =
      .ok (.none, .empty) ∧
    ¬ Bytes.ofString "BZh" <+: [0x4E, 0x2E] ∧
    plainAndPacked.Holds (Text.ofString "plain") [0x4E, 0x2E] ∧
    Codec.Packs [0x4E, 0x2E] .zlib packedNone ∧
    plainAndPacked.Holds (Text.ofString "packed") packedNone ∧
    Codec.Packs [0x4E, 0x2E] .xz filteredNone ∧
    plainAndPacked.Holds (Text.ofString "filtered") filteredNone ∧
    plainAndPacked.load .standard (Text.ofString "plain") =
      .ok (.none, .empty) ∧
    plainAndPacked.load .standard (Text.ofString "packed") =
      .ok (.none, .empty) ∧
    plainAndPacked.load .standard (Text.ofString "filtered") =
      .ok (.none, .empty) := by
  have decoded : Storage.decode ⟨.memory [0x4E, 0x2E], none⟩ plainAndPacked
      .standard = .ok (.none, .empty) := rfl
  have notBzip2 : ¬ Bytes.ofString "BZh" <+: [0x4E, 0x2E] := by decide
  have holdsPlain : plainAndPacked.Holds (Text.ofString "plain")
      [0x4E, 0x2E] := ⟨by decide, rfl⟩
  have holdsPacked : plainAndPacked.Holds (Text.ofString "packed")
      packedNone := ⟨by decide, rfl⟩
  have holdsFiltered : plainAndPacked.Holds (Text.ofString "filtered")
      filteredNone := ⟨by decide, rfl⟩
  have packs : Codec.Packs [0x4E, 0x2E] .zlib packedNone :=
    @Codec.Packs.zlib _ _ [] (by decide) (by decide +kernel)
  have filters : Codec.Packs [0x4E, 0x2E] .xz filteredNone :=
    .signed (by decide) (by decide) (by decide +kernel)
  obtain ⟨plain, packed⟩ := load_of_decode plainAndPacked .standard _ decoded
  exact ⟨decoded, notBzip2, holdsPlain, packs, holdsPacked, filters,
    holdsFiltered, (plain notBzip2 _ holdsPlain).2,
    (packed .zlib packedNone packs _ holdsPacked).2,
    (packed .xz filteredNone filters _ holdsFiltered).2⟩

end Files

end PickleGraph
