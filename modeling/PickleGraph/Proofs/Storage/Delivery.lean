import Mathlib.Algebra.BigOperators.Group.List.Basic
import PickleGraph.Proofs.Storage.Packed
import PickleGraph.Storage.PackedFile

/-!
# What a packed file hands out

Whatever the sizes of its reads, a packed file hands out the content that feeding
its pieces gives. So does a buffer above it, and so does the reader of the
content, which splits the content as the buffer does.
-/

namespace PickleGraph

open Actions

/-! ## Reads -/

theorem Content.after_nil (content : Content) : content.after [] = content :=
  rfl

theorem Content.after_append (first second : Bytes) (content : Content) :
    content.after (first ++ second) = (content.after second).after first :=
  congrArg (Content.mk · content.ending) (List.append_assoc first second _)

section Reads

variable {ε σ : Type}

/-- What a read of some octets gives of a content, and what it leaves. The end of
a content that breaks off is only met by a read that goes beyond it. -/
def Content.split (content : Content) (count : Nat) :
    Except SourceFault (Bytes × Content) :=
  match content.ending with
  | some fault =>
      if content.octets.length < count then
        .error fault
      else
        .ok (content.octets.take count,
          { content with octets := content.octets.drop count })
  | none =>
      .ok (content.octets.take count,
        { content with octets := content.octets.drop count })

/-- A read hands out the next octets of the content that a state holds. It hands
out none only at the end of the content, and it fails only if the content breaks
off. -/
def HandsOut (admits : Nat → Prop) (read : Nat → EStateM ε σ Bytes)
    (raise : SourceFault → ε) (holds : Content → σ → Prop) : Prop :=
  ∀ count content, admits count →
    Meets (holds content) (read count)
      (fun data after => ∃ rest, content = rest.after data ∧
        holds rest after ∧ (data = [] → content = .ofBytes []))
      (fun failure _ =>
        ∃ fault, content.ending = some fault ∧ failure = raise fault)

/-- A read splits the content that a state holds. -/
def Splits (admits : Nat → Prop) (read : Nat → EStateM ε σ Bytes)
    (raise : SourceFault → ε) (holds : Content → σ → Prop) : Prop :=
  ∀ count content, admits count →
    Meets (holds content) (read count)
      (fun data after =>
        ∃ rest, content.split count = .ok (data, rest) ∧ holds rest after)
      (fun failure _ =>
        ∃ fault, content.split count = .error fault ∧ failure = raise fault)

theorem Content.split_of_breaksOff {content : Content} {count : Nat}
    {fault : SourceFault} (short : content.octets.length < count)
    (breaksOff : content.ending = some fault) :
    content.split count = .error fault := by
  unfold Content.split
  rw [breaksOff]
  exact if_pos short

theorem Content.split_after {data : Bytes} {count : Nat}
    (enough : count ≤ data.length) (content : Content) :
    (content.after data).split count =
      .ok (data.take count, content.after (data.drop count)) := by
  have long : ¬ (data ++ content.octets).length < count := by
    rw [List.length_append]
    omega
  have given : (data ++ content.octets).take count = data.take count :=
    List.take_append_of_le_length enough
  have left : (data ++ content.octets).drop count =
      data.drop count ++ content.octets :=
    List.drop_append_of_le_length enough
  unfold Content.split Content.after
  dsimp only
  rw [given, left]
  cases content.ending with
  | none => rfl
  | some fault => exact if_neg long

theorem Content.split_eq_ok {content rest : Content} {count : Nat}
    {data : Bytes} (positive : 0 < count)
    (split : content.split count = .ok (data, rest)) :
    content = rest.after data ∧ (data = [] → content = .ofBytes []) := by
  obtain ⟨octets, ending⟩ := content
  have isTaken : data = octets.take count ∧
      rest = ⟨octets.drop count, ending⟩ ∧
      (octets.length < count → ending = none) := by
    cases ending with
    | none =>
        cases split
        exact ⟨rfl, rfl, fun _ => rfl⟩
    | some fault =>
        unfold Content.split at split
        dsimp only at split
        split at split
        · cases split
        · next long =>
            cases split
            exact ⟨rfl, rfl, fun short => absurd short long⟩
  obtain ⟨rfl, rfl, atEnd⟩ := isTaken
  constructor
  · unfold after
    rw [List.take_append_drop]
  · intro isEmpty
    have noOctets : octets = [] := by
      rcases List.take_eq_nil_iff.mp isEmpty with none | nil
      · omega
      · exact nil
    subst noOctets
    rw [atEnd positive]
    rfl

theorem Content.split_eq_error {content : Content} {count : Nat}
    {fault : SourceFault} (split : content.split count = .error fault) :
    content.ending = some fault := by
  obtain ⟨octets, ending⟩ := content
  cases ending with
  | none => cases split
  | some other =>
      unfold Content.split at split
      dsimp only at split
      split at split <;> cases split
      rfl

variable {admits : Nat → Prop} {read : Nat → EStateM ε σ Bytes}
variable {raise : SourceFault → ε} {holds : Content → σ → Prop}

theorem Splits.handsOut (splits : Splits admits read raise holds)
    (positive : ∀ count, admits count → 0 < count) :
    HandsOut admits read raise holds := by
  intro count content isAdmitted
  refine (splits count content isAdmitted).mono (fun _ here => here) ?_ ?_
  · rintro data after ⟨rest, split, still⟩
    obtain ⟨whole, atEnd⟩ := Content.split_eq_ok (positive count isAdmitted)
      split
    exact ⟨rest, whole, still, atEnd⟩
  · rintro failure _ ⟨fault, split, rfl⟩
    exact ⟨fault, Content.split_eq_error split, rfl⟩

/-- Reads one after the other hand out the content from its first octet on. -/
theorem HandsOut.mapM (hands : HandsOut admits read raise holds)
    {sizes : List Nat} (admitted : ∀ size ∈ sizes, admits size)
    (content : Content) :
    Meets (holds content) (sizes.mapM read)
      (fun outputs _ => outputs.length = sizes.length ∧
        (∃ rest : Content, content = rest.after outputs.flatten) ∧
        ∀ index : Nat, outputs[index]? = some [] →
          content = .ofBytes (outputs.take index).flatten)
      (fun failure _ =>
        ∃ fault, content.ending = some fault ∧ failure = raise fault) := by
  induction sizes generalizing content with
  | nil =>
      exact .pure fun _ _ => ⟨rfl, ⟨content, rfl⟩, fun _ none => by cases none⟩
  | cons size sizes inductionHypothesis =>
      obtain ⟨isAdmitted, others⟩ := List.forall_mem_cons.mp admitted
      rw [List.mapM_cons]
      refine (hands size content isAdmitted).bind fun data => ?_
      rintro middle ⟨rest, rfl, still, atEnd⟩
      refine Meets.bind (inductionHypothesis others rest) (fun outputs => ?_)
        middle still
      refine .pure fun _ ends => ?_
      obtain ⟨length, ⟨last, whole⟩, empties⟩ := ends
      refine ⟨congrArg (· + 1) length, ⟨last, ?_⟩, fun index isEmpty => ?_⟩
      · rw [whole, List.flatten_cons, Content.after_append]
      · cases index with
        | zero => exact atEnd (Option.some.inj isEmpty)
        | succ index =>
            rw [empties index isEmpty]
            rfl

/-- Some reads, one after the other, hand out data from the first octet on.
Nothing is handed out only behind all of the data, and as many reads as there are
octets come to their end. -/
def Delivers (read : Nat → EStateM ε σ Bytes) (start : σ) (sizes : List Nat)
    (data : Bytes) : Prop :=
  ∃ outputs last, sizes.mapM read start = .ok outputs last ∧
    outputs.flatten <+: data ∧
    (∀ index : Nat, outputs[index]? = some [] →
      (outputs.take index).flatten = data) ∧
    (data.length ≤ sizes.length → outputs.flatten = data)

/-- Some reads, one after the other, hand out data from the first octet on, but
fail before they come to an end of them. More reads than there are octets do not
all succeed. -/
def BreaksOff (read : Nat → EStateM ε σ Bytes) (start : σ) (sizes : List Nat)
    (data : Bytes) (failure : ε) : Prop :=
  EndsIn
    (fun outputs _ => outputs.flatten <+: data ∧ [] ∉ outputs ∧
      sizes.length ≤ data.length)
    (fun reason _ => reason = failure)
    (sizes.mapM read start)

theorem length_le_flatten {outputs : List Bytes} (noneEmpty : [] ∉ outputs) :
    outputs.length ≤ outputs.flatten.length := by
  have positive : ∀ length ∈ outputs.map List.length, 1 ≤ length := by
    intro length member
    obtain ⟨output, isOutput, rfl⟩ := List.mem_map.mp member
    exact List.length_pos_of_ne_nil (ne_of_mem_of_not_mem isOutput noneEmpty)
  calc outputs.length = (outputs.map List.length).length :=
        (List.length_map List.length).symm
    _ ≤ (outputs.map List.length).sum :=
        List.length_le_sum_of_one_le _ positive
    _ = outputs.flatten.length := List.length_flatten.symm

variable {sizes : List Nat} {start : σ} {data : Bytes}

theorem HandsOut.delivers (hands : HandsOut admits read raise holds)
    (admitted : ∀ size ∈ sizes, admits size)
    (here : holds (.ofBytes data) start) : Delivers read start sizes data := by
  have met := hands.mapM admitted (.ofBytes data)
  cases outcome : sizes.mapM read start with
  | error failure last =>
      obtain ⟨fault, isFault, _⟩ := met.of_error here outcome
      cases isFault
  | ok outputs last =>
      obtain ⟨length, ⟨rest, whole⟩, empties⟩ := met.of_ok here outcome
      have isPrefix : outputs.flatten <+: data :=
        ⟨rest.octets, (congrArg Content.octets whole).symm⟩
      have atEnd : ∀ index : Nat, outputs[index]? = some [] →
          (outputs.take index).flatten = data := fun index isEmpty =>
        (congrArg Content.octets (empties index isEmpty)).symm
      refine ⟨outputs, last, outcome, isPrefix, atEnd, fun enough => ?_⟩
      refine isPrefix.eq_of_length_le ?_
      by_cases isEmpty : [] ∈ outputs
      · obtain ⟨index, found⟩ := List.mem_iff_getElem?.mp isEmpty
        calc data.length = (outputs.take index).flatten.length := by
              rw [atEnd index found]
          _ ≤ ((outputs.take index).flatten ++
                (outputs.drop index).flatten).length := by
              rw [List.length_append]
              omega
          _ = outputs.flatten.length := by
              rw [← List.flatten_append, List.take_append_drop]
      · calc data.length ≤ sizes.length := enough
          _ = outputs.length := length.symm
          _ ≤ outputs.flatten.length := length_le_flatten isEmpty

theorem HandsOut.breaksOff (hands : HandsOut admits read raise holds)
    (admitted : ∀ size ∈ sizes, admits size) {rest : Bytes}
    {fault : SourceFault} (here : holds ⟨rest, some fault⟩ start)
    (isPart : rest <+: data) :
    BreaksOff read start sizes data (raise fault) := by
  have met := hands.mapM admitted ⟨rest, some fault⟩
  unfold BreaksOff
  cases outcome : sizes.mapM read start with
  | error failure last =>
      obtain ⟨_, isFault, rfl⟩ := met.of_error here outcome
      cases isFault
      rfl
  | ok outputs last =>
      obtain ⟨length, ⟨left, whole⟩, empties⟩ := met.of_ok here outcome
      have isPrefix : outputs.flatten <+: data :=
        .trans ⟨left.octets, (congrArg Content.octets whole).symm⟩ isPart
      have noneEmpty : [] ∉ outputs := by
        intro isEmpty
        obtain ⟨index, found⟩ := List.mem_iff_getElem?.mp isEmpty
        cases empties index found
      refine ⟨isPrefix, noneEmpty, ?_⟩
      calc sizes.length = outputs.length := length.symm
        _ ≤ outputs.flatten.length := length_le_flatten noneEmpty
        _ ≤ data.length := isPrefix.length_le

end Reads

/-! ## Packed files -/

section Files

variable {decompressor : Decompressor}

/-- What a packed file has still to hand out. -/
def PackedFile.content (file : PackedFile decompressor) : Content :=
  (decompressor.drain file.state file.pieces).after file.kept

namespace PackedFile

theorem content_of_isFinished {state : decompressor.State}
    (isFinished : decompressor.isFinished state = true)
    (pieces : List Bytes) : content ⟨pieces, state, []⟩ = .ofBytes [] := by
  unfold content
  rw [Decompressor.drain_of_isFinished isFinished, Content.after_nil]

/-- Feeding pieces changes nothing of what is to be handed out. Something is kept
then, unless the decompressor has finished. -/
theorem refill_content (state : decompressor.State) (kept : Bytes)
    (pieces : List Bytes) :
    EndsIn
      (fun _ (after : PackedFile decompressor) =>
        after.content = (decompressor.drain state pieces).after kept ∧
        (after.kept = [] → after.content = .ofBytes []))
      (fun fault _ => kept = [] ∧
        decompressor.drain state pieces = ⟨[], some fault⟩)
      (refill state kept pieces) := by
  have isFinished : ∀ {state : decompressor.State} {kept : Bytes},
      ¬ (kept.isEmpty && !decompressor.isFinished state) = true →
      kept = [] → decompressor.isFinished state = true := by
    rintro state kept isReady rfl
    simpa using isReady
  induction pieces generalizing state kept with
  | nil =>
      rw [refill]
      split
      · next isEmpty =>
          obtain ⟨nothing, unfinished⟩ := Bool.and_eq_true_iff.mp isEmpty
          rw [Bool.not_eq_true'] at unfinished
          refine ⟨List.isEmpty_iff.mp nothing, ?_⟩
          rw [Decompressor.drain, unfinished, if_neg Bool.false_ne_true]
      · next isReady =>
          refine ⟨rfl, fun (nothing : kept = []) => ?_⟩
          rw [nothing]
          exact content_of_isFinished (isFinished isReady nothing) []
  | cons piece pieces inductionHypothesis =>
      rw [refill]
      split
      · next isEmpty =>
          obtain ⟨nothing, unfinished⟩ := Bool.and_eq_true_iff.mp isEmpty
          rw [Bool.not_eq_true'] at unfinished
          rw [List.isEmpty_iff.mp nothing, Decompressor.drain_cons unfinished]
          cases fed : decompressor.feed state piece with
          | error fault => exact ⟨rfl, rfl⟩
          | ok result =>
              obtain ⟨output, next⟩ := result
              refine (inductionHypothesis next output).weaken
                (fun _ _ filled => filled) ?_
              rintro fault _ ⟨rfl, drained⟩
              refine ⟨rfl, ?_⟩
              dsimp only
              rw [drained]
              rfl
      · next isReady =>
          refine ⟨rfl, fun (nothing : kept = []) => ?_⟩
          rw [nothing]
          exact content_of_isFinished (isFinished isReady nothing) _

/-- A read hands out as much as is kept, and fails only where nothing is left. -/
theorem readInto_content {count : Nat} (positive : 0 < count)
    (file : PackedFile decompressor) :
    EndsIn
      (fun data after => file.content = after.content.after data ∧
        (data = [] → after.content = .ofBytes []))
      (fun fault _ => file.content = ⟨[], some fault⟩)
      (readInto count file) := by
  have refilled := refill_content file.state file.kept file.pieces
  unfold readInto
  cases outcome : refill file.state file.kept file.pieces with
  | error fault after =>
      rw [outcome] at refilled
      obtain ⟨nothing, drained⟩ := refilled
      show (decompressor.drain file.state file.pieces).after file.kept = _
      rw [drained, nothing]
      rfl
  | ok value after =>
      rw [outcome] at refilled
      obtain ⟨same, atEnd⟩ := refilled
      constructor
      · calc file.content = after.content := same.symm
          _ = (content { after with kept := after.kept.drop count }).after
                (after.kept.take count) := by
            unfold content
            rw [← Content.after_append, List.take_append_drop]
      · intro isEmpty
        have nothing : after.kept = [] := by
          rcases List.take_eq_nil_iff.mp isEmpty with none | nil
          · omega
          · exact nil
        calc content { after with kept := after.kept.drop count }
            = after.content := by
              unfold content
              rw [nothing, List.drop_nil]
          _ = .ofBytes [] := atEnd nothing

theorem handsOut_readInto :
    HandsOut (0 < ·) (@readInto decompressor) id
      (fun content file => file.content = content) := by
  rintro count content positive file rfl
  refine (readInto_content positive file).weaken ?_ ?_
  · rintro data after ⟨whole, atEnd⟩
    refine ⟨after.content, whole, rfl, fun isEmpty => ?_⟩
    rw [whole, atEnd isEmpty, isEmpty]
    rfl
  · intro fault _ nothing
    exact ⟨fault, congrArg Content.ending nothing, rfl⟩

end PackedFile

/-- What a buffer and the file below it have still to hand out. -/
def BufferedFile.content (file : BufferedFile decompressor) : Content :=
  file.below.content.after file.buffer

namespace BufferedFile

/-- Gathering changes nothing of what is to be handed out. There is enough then,
unless the file has come to its end. -/
theorem gather_content (wanted : Nat) (buffer : Bytes)
    (below : PackedFile decompressor) :
    EndsIn
      (fun data after =>
        below.content.after buffer = after.content.after data ∧
        (data.length < wanted → after.content = .ofBytes []))
      (fun fault _ => (below.content.after buffer).octets.length < wanted ∧
        below.content.ending = some fault)
      (gather wanted buffer below) := by
  have positive : 0 < max bufferSize wanted := by
    unfold bufferSize
    omega
  -- By the recursion of the loop: what is added to the buffer comes off the file.
  fun_induction gather wanted buffer below with
  | case1 buffer below enough =>
      exact ⟨rfl, fun short => absurd enough (Nat.not_le_of_lt short)⟩
  | case2 buffer below short fault after failed =>
      have handed := below.readInto_content positive
      rw [failed] at handed
      have nothing : below.content = ⟨[], some fault⟩ := handed
      rw [nothing]
      refine ⟨?_, rfl⟩
      show (buffer ++ []).length < wanted
      rw [List.append_nil]
      exact Nat.lt_of_not_le short
  | case3 buffer below short after ended =>
      have handed := below.readInto_content positive
      rw [ended] at handed
      obtain ⟨whole, atEnd⟩ := handed
      exact ⟨congrArg (Content.after buffer) whole, fun _ => atEnd rfl⟩
  | case4 buffer below short octet more after given inductionHypothesis =>
      have handed := below.readInto_content positive
      rw [given] at handed
      obtain ⟨whole, _⟩ := handed
      have later : below.content.after buffer =
          after.content.after (buffer ++ octet :: more) := by
        rw [whole, Content.after_append]
      have sameEnding : below.content.ending = after.content.ending := by
        rw [whole]
        rfl
      rw [later, sameEnding]
      exact inductionHypothesis

/-- A read splits what a buffered file has to hand out. -/
theorem splits_read :
    Splits (0 < ·) (@read decompressor) id
      (fun content file => file.content = content) := by
  rintro count content _ file rfl
  have gathered := gather_content count file.buffer file.below
  unfold read
  cases outcome : gather count file.buffer file.below with
  | ok data after =>
      rw [outcome] at gathered
      obtain ⟨whole, atEnd⟩ := gathered
      refine ⟨after.content.after (data.drop count), ?_, rfl⟩
      rw [content, whole]
      by_cases enough : count ≤ data.length
      · exact Content.split_after enough after.content
      · rw [atEnd (Nat.lt_of_not_le enough)]
        show Except.ok ((data ++ []).take count,
            Content.ofBytes ((data ++ []).drop count)) =
          .ok (data.take count, Content.ofBytes (data.drop count ++ []))
        rw [List.append_nil, List.append_nil]
  | error fault after =>
      rw [outcome] at gathered
      obtain ⟨short, breaksOff⟩ := gathered
      exact ⟨fault, Content.split_of_breaksOff short breaksOff, rfl⟩

end BufferedFile

/-- A read splits what the reader of a content has to hand out. -/
theorem Reader.splits_read :
    Splits (fun count => 0 < count ∧ (count : Int) < Reader.countLimit)
      (fun count : Nat => Reader.read count) Failure.source
      (fun content reader =>
        ∃ offset, reader = .file content.octets offset content.ending) := by
  rintro count ⟨octets, ending⟩ ⟨_, inRange⟩ _ ⟨offset, rfl⟩
  have natural : ¬ (count : Int) < 0 := by omega
  show EndsIn _ _ (Reader.readFile count octets offset ending)
  unfold Reader.readFile
  rw [if_neg (Int.not_le.mpr inRange)]
  dsimp only
  rw [if_neg natural, Int.toNat_natCast]
  cases ending with
  | none => exact ⟨.ofBytes (octets.drop count), rfl, _, rfl⟩
  | some fault =>
      dsimp only
      have length : (octets.take count).length = min count octets.length :=
        List.length_take
      by_cases short : octets.length < count
      · rw [if_pos (.inr (by omega))]
        exact ⟨fault, Content.split_of_breaksOff short rfl, rfl⟩
      · rw [if_neg (by omega)]
        exact ⟨⟨octets.drop count, some fault⟩, if_neg short, _, rfl⟩

theorem PackedFile.content_opened (skipped file : Bytes) :
    content (.opened decompressor skipped.length (skipped ++ file)) =
      decompressor.content file := by
  unfold content opened Decompressor.content
  dsimp only
  rw [List.drop_left, Content.after_nil]

theorem BufferedFile.content_opened (skipped file : Bytes) :
    content (.opened decompressor skipped.length (skipped ++ file)) =
      decompressor.content file := by
  unfold content opened
  rw [Content.after_nil, PackedFile.content_opened]

/-- Octets are skipped, packed data begin behind them, and anything may follow.
Reads of any positive sizes then hand out the data, directly, through a buffer,
and through the reader that decoding uses, as long as this admits their sizes.
If the file ends before the packed data do, reading on meets the end of the file
instead of the end of the data. -/
theorem Decompressor.Unpacks.reads_deliver {packed data : Bytes}
    (unpacks : decompressor.Unpacks packed data) (skipped : Bytes)
    {sizes : List Nat} (positive : ∀ size ∈ sizes, 0 < size) :
    (∀ trailing : Bytes,
      let file := skipped ++ (packed ++ trailing)
      let content := decompressor.content (file.drop skipped.length)
      Delivers PackedFile.readInto
        (.opened decompressor skipped.length file) sizes data ∧
      Delivers BufferedFile.read
        (.opened decompressor skipped.length file) sizes data ∧
      ((∀ size ∈ sizes, (size : Int) < Reader.countLimit) →
        Delivers (fun size : Nat => Reader.read size) content.reader sizes
          data)) ∧
    ∀ part, part <+: packed → part ≠ packed →
      let file := skipped ++ part
      let content := decompressor.content (file.drop skipped.length)
      BreaksOff PackedFile.readInto
        (.opened decompressor skipped.length file) sizes data
        .unexpectedEnd ∧
      BreaksOff BufferedFile.read
        (.opened decompressor skipped.length file) sizes data
        .unexpectedEnd ∧
      ((∀ size ∈ sizes, (size : Int) < Reader.countLimit) →
        BreaksOff (fun size : Nat => Reader.read size) content.reader sizes
          data (.source .unexpectedEnd)) := by
  constructor
  · intro trailing
    dsimp only
    have whole := unpacks.content_eq trailing
    have opened := (PackedFile.content_opened skipped _).trans whole
    have openedAbove := (BufferedFile.content_opened skipped _).trans whole
    rw [List.drop_left, whole]
    refine ⟨?_, ?_, fun inRange => ?_⟩
    · exact PackedFile.handsOut_readInto.delivers positive opened
    · exact (BufferedFile.splits_read.handsOut fun _ => id).delivers
        positive openedAbove
    · exact (Reader.splits_read.handsOut fun _ => And.left).delivers
        (fun size member => ⟨positive size member, inRange size member⟩)
        ⟨0, rfl⟩
  · intro part isPart isCut
    dsimp only
    obtain ⟨rest, isPrefix, cut⟩ := unpacks.content_cut isPart isCut
    have opened := (PackedFile.content_opened skipped _).trans cut
    have openedAbove := (BufferedFile.content_opened skipped _).trans cut
    rw [List.drop_left, cut]
    refine ⟨?_, ?_, fun inRange => ?_⟩
    · exact PackedFile.handsOut_readInto.breaksOff positive opened isPrefix
    · exact (BufferedFile.splits_read.handsOut fun _ => id).breaksOff
        positive openedAbove isPrefix
    · exact (Reader.splits_read.handsOut fun _ => And.left).breaksOff
        (fun size member => ⟨positive size member, inRange size member⟩)
        ⟨0, rfl⟩ isPrefix

/-- Three octets in a zlib stream. -/
def packedOctets : Bytes :=
  [0x78, 0x01, 0x01, 0x03, 0x00, 0xFC, 0xFF, 0x61, 0x62, 0x63, 0x02, 0x4D,
    0x01, 0x27]

theorem Decompressor.zlib_reads_deliver :
    let data : Bytes := [0x61, 0x62, 0x63]
    let skipped : Bytes := [0x5A, 0x46]
    let file := skipped ++ (packedOctets ++ [0x00])
    let part := packedOctets.take 9
    let cutFile := skipped ++ part
    zlib.Unpacks packedOctets data ∧
    (∀ size ∈ [2, 5, 1], 0 < size) ∧
    (∀ size ∈ [2, 5, 1], ((size : Nat) : Int) < Reader.countLimit) ∧
    part <+: packedOctets ∧ part ≠ packedOctets ∧
    Delivers BufferedFile.read (.opened zlib skipped.length file) [2, 5, 1]
      data ∧
    Delivers (fun size : Nat => Reader.read size)
      (zlib.content (file.drop skipped.length)).reader [2, 5, 1] data ∧
    BreaksOff BufferedFile.read (.opened zlib skipped.length cutFile)
      [2, 5, 1] data .unexpectedEnd ∧
    BreaksOff (fun size : Nat => Reader.read size)
      (zlib.content (cutFile.drop skipped.length)).reader [2, 5, 1] data
      (.source .unexpectedEnd) := by
  intro data skipped file part cutFile
  have unpacks : zlib.Unpacks packedOctets data :=
    zlib_unpacks (by decide +kernel)
  have positive : ∀ size ∈ [2, 5, 1], 0 < size := by decide
  have inRange : ∀ size ∈ [2, 5, 1], ((size : Nat) : Int) <
      Reader.countLimit := by decide
  have isPart : part <+: packedOctets := List.take_prefix 9 packedOctets
  have isCut : part ≠ packedOctets := by decide
  obtain ⟨whole, cut⟩ := unpacks.reads_deliver skipped positive
  obtain ⟨_, buffered, read⟩ := whole [0x00]
  obtain ⟨_, bufferedCut, readCut⟩ := cut part isPart isCut
  exact ⟨unpacks, positive, inRange, isPart, isCut, buffered, read inRange,
    bufferedCut, readCut inRange⟩

end Files

end PickleGraph
