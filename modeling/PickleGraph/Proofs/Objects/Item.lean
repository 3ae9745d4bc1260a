import PickleGraph.Proofs.Objects.Code
import PickleGraph.Proofs.Objects.Inside
import PickleGraph.Proofs.Text.Ascii

/-!
# Items of arrays of objects

Three opcodes carry a string of octets: in quotes with escapes, or after its
length in one or in four octets. The rules for texts then decide which value is
pushed.

The items of an array are strings of octets and further arrays, one inside the
other to any depth. The rules for texts decide what a string is outside of the
arrays only: an item is a text in ASCII under all rules, and one that is not in
ASCII corrupts the payload that it belongs to.
-/

namespace PickleGraph

open Actions

/-- The opcode with this argument carries a string of octets. -/
inductive Carries (content : Bytes) : Opcode → Bytes → Prop
  | quoted {quote : UInt8} {body : Bytes} :
      quote = 0x22 ∨ quote = 0x27 → (0x0A : UInt8) ∉ body →
      Escape.unescape body = .ok content →
      Carries content .string (quote :: (body ++ [quote]) ++ [0x0A])
  | long : content.length < 2 ^ 31 →
      Carries content .binString
        (Bytes.ofNatLE 4 content.length ++ content)
  | short : content.length < 256 →
      Carries content .shortBinString
        (Bytes.ofNatLE 1 content.length ++ content)

namespace Instruction

open Decoding

variable {rules : TextRules} {content argument rest : Bytes}
variable {opcode : Opcode}

theorem unquote?_quoted {quote : UInt8} (isQuote : quote = 0x22 ∨ quote = 0x27)
    (body : Bytes) : unquote? (quote :: (body ++ [quote])) = some body := by
  unfold unquote?
  dsimp only
  rw [List.getLast?_concat, List.dropLast_concat]
  rcases isQuote with rfl | rfl
  · rfl
  · rfl

theorem quotedString_eq {quote : UInt8} {body : Bytes}
    (isQuote : quote = 0x22 ∨ quote = 0x27)
    (unescaped : Escape.unescape body = .ok content) :
    quotedString rules (quote :: (body ++ [quote])) =
      query fun _ => rules.decode content := by
  unfold quotedString
  rw [unquote?_quoted isQuote body]
  dsimp only
  rw [unescaped]

/-- When the argument has been read, the rules are asked. -/
theorem ofOpcode_of_carries (carries : Carries content opcode argument)
    {source : Source} (faces : source.reader.Faces (argument ++ rest)) :
    ∃ reader : Reader, reader.Faces rest ∧
      ofOpcode rules opcode source =
        (do return .push (← query fun _ => rules.decode content) :
          Decoding Instruction) { source with reader } := by
  cases carries with
  | @quoted quote body isQuote noNewline unescaped =>
      have noneInLine : (0x0A : UInt8) ∉ quote :: (body ++ [quote]) := by
        rcases isQuote with rfl | rfl
        · simp [noNewline]
        · simp [noNewline]
      obtain ⟨reader, after, read⟩ :=
        takes_line noneInLine rest source faces
      refine ⟨reader, after, (bind_of_eq_ok read).trans ?_⟩
      rw [quotedString_eq isQuote unescaped]
  | long bound =>
      obtain ⟨reader, after, read⟩ :=
        takes_countedSigned Opcode.binString.name bound rest source faces
      exact ⟨reader, after, bind_of_eq_ok read⟩
  | short bound =>
      have small : content.length ≤ maxSize :=
        Nat.le_trans (Nat.le_of_lt bound) (by decide)
      obtain ⟨reader, after, read⟩ :=
        takes_counted .shortBinString (by decide) bound small rest source faces
      exact ⟨reader, after, bind_of_eq_ok read⟩

end Instruction

namespace Execution

variable {options : Options} {content argument : Bytes} {opcode : Opcode}
variable {stack : List Value} {marks : List (List Value)}
variable {memo : List (Nat × Value)} {heap : Heap}

theorem executes_text (carries : Carries content opcode argument)
    {value : Value} (decoded : options.rules.decode content = .ok value) :
    Executes options (opcode.code :: argument) ⟨stack, marks, memo, heap⟩
      ⟨value :: stack, marks, memo, heap⟩ := by
  refine .of_effect (fun rest source faces => ?_) (effect_push value)
  obtain ⟨reader, after, parsed⟩ :=
    Instruction.ofOpcode_of_carries carries faces
  refine ⟨reader, after, parsed.trans (bind_of_eq_ok ?_)⟩
  exact Payload.query_eq_ok_iff.mpr ⟨decoded, rfl⟩

theorem breaks_text (carries : Carries content opcode argument)
    {cause : Cause} {offset : Option Nat}
    (undecoded : options.rules.decode content =
      .error (.defect cause offset)) :
    Breaks options (opcode.code :: argument) ⟨stack, marks, memo, heap⟩
      cause.failureClass := by
  refine .of_perform fun rest middle stands => ?_
  obtain ⟨reader, after, parsed⟩ :=
    Instruction.ofOpcode_of_carries carries stands.1
  have asked : Decoding.query (fun _ => options.rules.decode content)
      { middle.source with reader } =
        .error (.defect cause offset) { middle.source with reader } := by
    unfold Decoding.query
    rw [undecoded]
  have failed : decoding (Instruction.ofOpcode options.rules opcode) middle =
      .error (.defect cause offset)
        { middle with source := { middle.source with reader } } := by
    unfold decoding
    rw [parsed, bind_of_eq_error asked]
  exact ⟨cause, offset, _, bind_of_eq_error failed, rfl⟩

end Execution

end PickleGraph

namespace PickleGraph.Objects

open Execution

/-- A string of octets, or an array of items. -/
inductive Item
  | text (content : Bytes)
  | array (items : List Item)

/-- All ways to push items one after the other. -/
inductive Encodes : List Item → Bytes → Prop
  | nil : Encodes [] []
  | text {content argument more : Bytes} {opcode : Opcode}
      {items : List Item} :
      Carries content opcode argument → Encodes items more →
      Encodes (.text content :: items) (opcode.code :: argument ++ more)
  | array {inner items : List Item} {code more : Bytes} :
      inner.length < 2 ^ 31 → Encodes inner code → Encodes items more →
      Encodes (.array inner :: items) (arrayCode inner.length code ++ more)

/-- All strings are in ASCII, also those of the arrays inside. -/
inductive AreAscii : List Item → Prop
  | nil : AreAscii []
  | text {content : Bytes} {items : List Item} :
      content.IsAscii → AreAscii items → AreAscii (.text content :: items)
  | array {inner items : List Item} :
      AreAscii inner → AreAscii items → AreAscii (.array inner :: items)

/-- The values are the items, where strings have become texts. -/
inductive Shows (heap : Heap) : List Item → List Value → Prop
  | nil : Shows heap [] []
  | text {content : Bytes} {items : List Item} {values : List Value} :
      Shows heap items values →
      Shows heap (.text content :: items)
        (.str (Text.ofLatin1 content) :: values)
  | array {inner items : List Item} {value : Value}
      {members values : List Value} :
      heap.array? value = some (.ofItems members) →
      Shows heap inner members → Shows heap items values →
      Shows heap (.array inner :: items) (value :: values)

variable {options : Options} {items more : List Item}
variable {values further : List Value} {heap after : Heap}
variable {code rest : Bytes}

theorem Shows.length (shows_ : Shows heap items values) :
    values.length = items.length := by
  induction shows_ with
  | nil => rfl
  | text _ inductionHypothesis =>
      exact congrArg Nat.succ inductionHypothesis
  | array _ _ _ _ inductionHypothesis =>
      exact congrArg Nat.succ inductionHypothesis

theorem Shows.append (shows_ : Shows heap items values)
    (others : Shows heap more further) :
    Shows heap (items ++ more) (values ++ further) := by
  induction shows_ with
  | nil => exact others
  | text _ inductionHypothesis => exact .text inductionHypothesis
  | array isArray innerShows _ _ inductionHypothesis =>
      exact .array isArray innerShows inductionHypothesis

theorem Shows.mono (kept : heap.KeepsArrays after)
    (shows_ : Shows heap items values) : Shows after items values := by
  induction shows_ with
  | nil => exact .nil
  | text _ inductionHypothesis => exact .text inductionHypothesis
  | array isArray _ _ innerShows itemsShow =>
      exact .array (kept _ _ isArray) innerShows itemsShow

/-! ## Code that pushes items -/

/-- The code pushes values that are the items, whatever has been pushed
before. -/
def Pushes (options : Options) (code : Bytes) (items : List Item) : Prop :=
  ∀ stack marks heap, ∃ values after,
    Executes options code ⟨stack, marks, [], heap⟩
        ⟨values.reverse ++ stack, marks, [], after⟩ ∧
      Shows after items values ∧ Heap.Extends [] heap after

theorem Pushes.nil (options : Options) : Pushes options [] [] :=
  fun _ _ heap => ⟨[], heap, .nil _, .nil, .refl _ _⟩

theorem Pushes.append (first : Pushes options code items)
    (second : Pushes options rest more) :
    Pushes options (code ++ rest) (items ++ more) := by
  intro stack marks heap
  obtain ⟨values, middle, run, shows_, extends_⟩ := first stack marks heap
  obtain ⟨further, after, runRest, showsMore, grown⟩ :=
    second (values.reverse ++ stack) marks middle
  have kept : middle.KeepsArrays after := grown.keepsArrays (by simp)
  refine ⟨values ++ further, after, ?_, (shows_.mono kept).append showsMore,
    extends_.trans grown (by simp)⟩
  rw [List.reverse_append, List.append_assoc]
  exact run.append runRest

theorem Pushes.text {content argument : Bytes} {opcode : Opcode}
    (carries : Carries content opcode argument)
    (decoded : options.rules.decode content =
      .ok (.str (Text.ofLatin1 content))) :
    Pushes options (opcode.code :: argument) [.text content] :=
  fun _ _ heap =>
    ⟨[.str (Text.ofLatin1 content)], heap, executes_text carries decoded,
      .text .nil, .refl _ _⟩

/-- An array is pushed if its items are pushed inside. -/
theorem Pushes.array (binds : options.registry.BindsArrays)
    (small : items.length < 2 ^ 31)
    (inside : Pushes (nestedOptions options) code items) :
    Pushes options (arrayCode items.length code) [.array items] := by
  intro stack marks heap
  obtain ⟨members, middle, filling, shows_, filled⟩ :=
    inside [] (beforeItems heap items.length).marks
      (beforeItems heap items.length).heap
  rw [← shows_.length] at small filling filled ⊢
  obtain ⟨value, after, run, isArray, extends_, kept⟩ :=
    executes_arrayCode binds small filling filled stack marks
  exact ⟨[value], after, run, .array isArray (shows_.mono kept) .nil,
    extends_⟩

theorem Encodes.pushes (binds : options.registry.BindsArrays)
    (encodes : Encodes items code) (areAscii : AreAscii items) :
    Pushes (nestedOptions options) code items := by
  induction encodes with
  | nil => exact .nil _
  | text carries _ inductionHypothesis =>
      cases areAscii with
      | text isAscii areAscii =>
          exact (Pushes.text carries (TextRules.decode_ascii isAscii)).append
            (inductionHypothesis areAscii)
  | array small _ _ innerHypothesis inductionHypothesis =>
      cases areAscii with
      | array innerAscii areAscii =>
          have bindsInside : (nestedOptions options).registry.BindsArrays :=
            binds
          exact (Pushes.array bindsInside small
            (innerHypothesis innerAscii)).append
              (inductionHypothesis areAscii)

/-! ## Code that breaks off -/

/-- The code breaks off, whatever has been pushed before. -/
def Spoils (options : Options) (code : Bytes) (kind : FailureClass) : Prop :=
  ∀ stack marks heap, Breaks options code ⟨stack, marks, [], heap⟩ kind

theorem Spoils.append {kind : FailureClass} (spoils : Spoils options code kind)
    (rest : Bytes) : Spoils options (code ++ rest) kind :=
  fun stack marks heap => (spoils stack marks heap).append rest

theorem Pushes.spoils {kind : FailureClass} (first : Pushes options code items)
    (second : Spoils options rest kind) :
    Spoils options (code ++ rest) kind := by
  intro stack marks heap
  obtain ⟨values, middle, run, _, _⟩ := first stack marks heap
  exact run.breaks (second _ _ _)

theorem Spoils.array (binds : options.registry.BindsArrays)
    {size : Nat} (small : size < 2 ^ 31) {kind : FailureClass}
    (inside : Spoils (nestedOptions options) code kind) :
    Spoils options (arrayCode size code) .corruptPayload :=
  fun _ _ _ => breaks_arrayCode binds small (inside _ _ _)

theorem Encodes.spoils (binds : options.registry.BindsArrays)
    (encodes : Encodes items code) (notAscii : ¬ AreAscii items) :
    ∃ kind, Spoils (nestedOptions options) code kind := by
  have bindsInside : (nestedOptions options).registry.BindsArrays := binds
  induction encodes with
  | nil => exact absurd AreAscii.nil notAscii
  | @text content argument rest opcode items carries _ inductionHypothesis =>
      by_cases isAscii : content.IsAscii
      · obtain ⟨kind, spoils⟩ := inductionHypothesis fun areAscii =>
          notAscii (.text isAscii areAscii)
        exact ⟨kind, (Pushes.text carries
          (TextRules.decode_ascii isAscii)).spoils spoils⟩
      · obtain ⟨fault, undecoded⟩ := TextRules.decode_not_ascii isAscii
        have breaks : Spoils (nestedOptions options)
            (opcode.code :: argument) _ :=
          fun _ _ _ => breaks_text carries undecoded
        exact ⟨_, breaks.append rest⟩
  | @array inner items code rest small encodes _ innerHypothesis
      inductionHypothesis =>
      by_cases innerAscii : AreAscii inner
      · obtain ⟨kind, spoils⟩ := inductionHypothesis fun areAscii =>
          notAscii (.array innerAscii areAscii)
        exact ⟨kind, (Pushes.array bindsInside small
          (encodes.pushes binds innerAscii)).spoils spoils⟩
      · obtain ⟨kind, spoils⟩ := innerHypothesis innerAscii
        exact ⟨_, (Spoils.array bindsInside small spoils).append rest⟩

/-! ## Whole pickles -/

theorem decode_carried {content argument : Bytes} {opcode : Opcode}
    {value : Value} (carries : Carries content opcode argument)
    (decoded : options.rules.decode content = .ok value) (rest : Bytes) :
    options.decode (opcode.code :: argument ++ Opcode.stop.code :: rest) =
      .ok (value, .empty) :=
  (executes_text carries decoded).decode rest

theorem decode_array (binds : options.registry.BindsArrays)
    (small : items.length < 2 ^ 31) (encodes : Encodes items code)
    (areAscii : AreAscii items) (rest : Bytes) :
    ∃ value heap values,
      options.decode
          (arrayCode items.length code ++ Opcode.stop.code :: rest) =
        .ok (value, heap) ∧
      heap.array? value = some (.ofItems values) ∧
      Shows heap items values := by
  obtain ⟨_, heap, run, shows_, _⟩ :=
    Pushes.array binds small (encodes.pushes binds areAscii) [] [] .empty
  cases shows_ with
  | @array _ _ value members _ isArray innerShows noMore =>
      cases noMore
      exact ⟨value, heap, members, run.decode rest, isArray, innerShows⟩

theorem decode_spoiled (binds : options.registry.BindsArrays)
    (small : items.length < 2 ^ 31) (encodes : Encodes items code)
    (notAscii : ¬ AreAscii items) (rest : Bytes) :
    ∃ cause offset,
      options.decode
          (arrayCode items.length code ++ Opcode.stop.code :: rest) =
        .error (.defect cause offset) ∧
      cause.failureClass = .corruptPayload := by
  obtain ⟨kind, spoils⟩ := encodes.spoils binds notAscii
  exact (Spoils.array binds small spoils [] [] .empty).decode _

/-- The rules for texts are asked for a string outside of all arrays. They
change nothing about the payload of a placeholder: the items of an array are
texts in ASCII to any depth, and if one of the strings is not in ASCII, then the
payload is corrupt. -/
theorem decode_objects (options : Options)
    (binds : options.registry.BindsArrays) :
    (∀ content opcode argument value rest,
      Carries content opcode argument →
      options.rules.decode content = .ok value →
      options.decode (opcode.code :: argument ++ Opcode.stop.code :: rest) =
        .ok (value, .empty)) ∧
      (∀ (other : Options) (record : Record),
        other.registry = options.registry → other.names = options.names →
        materialize other (nestedPickle other) .inline record =
          materialize options (nestedPickle options) .inline record) ∧
      ∀ items code rest, Encodes items code → items.length < 2 ^ 31 →
        (AreAscii items ∧ ∃ value heap values,
          options.decode
              (arrayCode items.length code ++ Opcode.stop.code :: rest) =
            .ok (value, heap) ∧
          heap.array? value = some (.ofItems values) ∧
          Shows heap items values) ∨
        (¬ AreAscii items ∧ ∃ cause offset,
          options.decode
              (arrayCode items.length code ++ Opcode.stop.code :: rest) =
            .error (.defect cause offset) ∧
          cause.failureClass = .corruptPayload) := by
  refine ⟨?_, ?_, ?_⟩
  · intro content opcode argument value rest carries decoded
    exact decode_carried carries decoded rest
  · intro other record same sameNames
    have nested : nestedOptions other = nestedOptions options := by
      unfold nestedOptions
      rw [same, sameNames]
    show Payload.readInline other.names record (nestedPickle other) =
      Payload.readInline options.names record (nestedPickle options)
    unfold nestedPickle
    rw [nested, sameNames]
  · intro items code rest encodes small
    by_cases areAscii : AreAscii items
    · exact .inl ⟨areAscii, decode_array binds small encodes areAscii rest⟩
    · exact .inr ⟨areAscii, decode_spoiled binds small encodes areAscii rest⟩

/-- The types of arrays alone, and strings that are kept as octets. -/
def keepingOctets : Options where
  registry := ⟨[
    (Catalog.key "joblib.numpy_pickle" "NumpyArrayWrapper",
      ⟨.array "numpy.ndarray" .inline, 0⟩),
    (Catalog.key "numpy.core.multiarray" "_reconstruct",
      ⟨Catalog.arrayStrategy, 1⟩)]⟩
  rules := ⟨TextRules.bytesRule, Text.ofString "strict"⟩

theorem bindsArrays_keepingOctets :
    keepingOctets.registry.BindsArrays :=
  ⟨rfl, rfl⟩

/-- A string of one letter. -/
def letterCode : Bytes :=
  Opcode.shortBinString.code :: (Bytes.ofNatLE 1 1 ++ [0x61])

theorem carries_letter :
    Carries [0x61] .shortBinString (Bytes.ofNatLE 1 1 ++ [0x61]) :=
  .short (by decide)

theorem encodes_letter : Encodes [.text [0x61]] letterCode :=
  List.append_nil letterCode ▸ .text carries_letter .nil

theorem areAscii_letter : AreAscii [.text [0x61]] :=
  .text (Bytes.isAscii_cons.mpr ⟨by decide, Bytes.isAscii_nil⟩) .nil

/-- The letter is kept as an octet, but it is a text as an item of an array. -/
theorem decode_letter :
    keepingOctets.decode (letterCode ++ [Opcode.stop.code]) =
        .ok (.bytes [0x61], .empty) ∧
      ∃ value heap,
        keepingOctets.decode (arrayCode 1 letterCode ++ [Opcode.stop.code]) =
            .ok (value, heap) ∧
          heap.array? value =
            some (.ofItems [.str (Text.ofLatin1 [0x61])]) := by
  obtain ⟨value, heap, values, decoded, isArray, shows_⟩ :=
    decode_array bindsArrays_keepingOctets (by decide) encodes_letter
      areAscii_letter []
  refine ⟨decode_carried carries_letter rfl [], value, heap, decoded, ?_⟩
  cases shows_ with
  | text noMore =>
      cases noMore
      exact isArray

/-- Both are cases of what is decoded in general. -/
theorem decode_objects_letter :
    keepingOctets.registry.BindsArrays ∧
      Carries [0x61] .shortBinString (Bytes.ofNatLE 1 1 ++ [0x61]) ∧
      keepingOctets.rules.decode [0x61] = .ok (.bytes [0x61]) ∧
      keepingOctets.decode (letterCode ++ [Opcode.stop.code]) =
        .ok (.bytes [0x61], .empty) ∧
      Encodes [.text [0x61]] letterCode ∧ AreAscii [.text [0x61]] ∧
      ∃ value heap values,
        keepingOctets.decode (arrayCode 1 letterCode ++ [Opcode.stop.code]) =
            .ok (value, heap) ∧
          heap.array? value = some (.ofItems values) ∧
          Shows heap [.text [0x61]] values := by
  have binds := bindsArrays_keepingOctets
  have kept : keepingOctets.rules.decode [0x61] = .ok (.bytes [0x61]) := rfl
  have general := decode_objects keepingOctets binds
  have outside := general.1 _ _ _ _ [] carries_letter kept
  refine ⟨binds, carries_letter, kept, outside, encodes_letter,
    areAscii_letter, ?_⟩
  rcases general.2.2 _ _ [] encodes_letter (by decide) with
    ⟨_, shown⟩ | ⟨notAscii, _⟩
  · exact shown
  · exact absurd areAscii_letter notAscii

end PickleGraph.Objects

/-!
## Elements of arrays of objects

The items of an array of objects can be of any kind. An array that is rebuilt
from a record holds them as they are, and the same array takes the place of a
placeholder whose pickle inside leaves the record.
-/

namespace PickleGraph.Objects

open Actions Execution

/-- An array of objects holds the very items of the list of its record, each of
them at the index that stands for its place in the list. A placeholder for an
array of objects is replaced by the same array when the pickle inside leaves the
record. -/
theorem rebuild_keepsItems (options : Options) {heap : Heap}
    {record : Record} {shape : List Nat} {firstFastest : Bool}
    {items : List Value} (few : shape.length ≤ 64)
    (small : spreadOf shape < 2 ^ 59) (count : items.length = shape.prod)
    (isArray : record.kind = .ndarray)
    (keeps : record.KeepsItems heap shape firstFastest items) :
    ∃ array : NdArray, array.Holds shape firstFastest items ∧
      heap.rebuild record = .ok (heap.alloc (.array array)) ∧
      ∀ (wrapper : Record) (header : Payload.Header) (source : Source)
        (reader : Reader) (address : Address),
        Payload.Announces wrapper source header →
        header.type.hasObject = true →
        nestedPickle options source = .ok (.object address) ⟨reader, heap⟩ →
        heap.get address = .record record →
        materialize options (nestedPickle options) .inline wrapper source =
          .ok (heap.alloc (.array array)).1
            ⟨reader, (heap.alloc (.array array)).2⟩ := by
  have admits := Dtype.admits_object few small
  refine ⟨_, NdArray.holds_ofItemListing firstFastest count,
    keeps.rebuild_eq isArray admits count, ?_⟩
  intro wrapper header source reader address announces holdsObjects decoded
    here
  have isRecord : heap.record? (.object address) =
      some (address, record) := by
    simp only [Heap.record?, here]
  have rebuilds : Payload.Rebuilds heap (.object address)
      (.ofItemListing shape firstFastest items) heap :=
    ⟨address, record, isRecord, isArray, keeps.arrayOfRecord_eq admits count⟩
  calc materialize options (nestedPickle options) .inline wrapper source
      = Payload.readAnnounced wrapper (nestedPickle options) header source :=
        Payload.readInline_of_announces announces
    _ = Payload.readNested (nestedPickle options) source := by
        rw [Payload.readAnnounced, if_pos holdsObjects]
    _ = _ := Payload.readNested_of_rebuilds decoded rebuilds

/-! ## A list and nothing as items -/

/-- Code for an empty list and for no value. -/
def mixedCode : Bytes :=
  [Opcode.emptyList.code] ++ [Opcode.none.code]

/-- The heap with the empty list. -/
def mixedHeap : Heap :=
  ((beforeItems .empty 2).heap.alloc (.list #[])).2

def mixedItems : List Value :=
  [.object (beforeItems .empty 2).heap.objects.size, .none]

theorem executes_mixedCode (options : Options) :
    Executes options mixedCode (beforeItems .empty 2)
      { beforeItems .empty 2 with
        stack := mixedItems.reverse ++ [], heap := mixedHeap } :=
  .append (.bare .emptyList rfl (effect_pushObject _))
    (.bare .none rfl (effect_push _))

theorem get_mixedHeap :
    mixedHeap.get (recordPlace .empty 2) =
      .record (newInstance recordType .ndarray) :=
  (Heap.Extends.alloc _ _).get (get_withInstance _ _ _) (by simp)

/-- A list of six items, of which one is the list. -/
def tableItems : List Value :=
  [.int 1, .object 0, .none, .bool true, .int 5, .int 6]

def tableHeap : Heap :=
  ⟨#[.list tableItems.toArray], 0⟩

/-- The record of a table of two rows, whose columns are listed one after the
other. -/
def tableRecord : Record :=
  (newInstance recordType .ndarray).update (Entries.named
    [("dtype", .str (Text.ofString "O")), ("shape", .tuple [.int 2, .int 3]),
      ("fortran_order", .bool true), ("data", .object 0)])

theorem keepsItems_tableRecord :
    tableRecord.KeepsItems tableHeap [2, 3] true tableItems := by
  have fields (name : String) := Entries.findText?_merge_named name
    (newInstance recordType .ndarray).fields
    [("dtype", .str (Text.ofString "O")), ("shape", .tuple [.int 2, .int 3]),
      ("fortran_order", .bool true), ("data", .object 0)]
  refine ⟨⟨_, fields "shape", rfl⟩, ⟨.object, ?_, rfl⟩,
    congrArg (·.getD .none) (fields "fortran_order"), 0,
    congrArg (·.getD .none) (fields "data"), rfl⟩
  have type : tableRecord.field "dtype" = .str (Text.ofString "O") :=
    congrArg (·.getD .none) (fields "dtype")
  rw [type]
  exact toDtype_objects

/-- A line of two items that a pickle inside leaves, and a table in which the
second item of the list is the first one of the second row. -/
theorem rebuild_keepsItems_lineAndTable :
    [2].length ≤ 64 ∧ spreadOf [2] < 2 ^ 59 ∧
      mixedItems.length = [2].prod ∧
      (∃ table : NdArray, table.Holds [2, 3] true tableItems ∧
        tableHeap.rebuild tableRecord =
          .ok (tableHeap.alloc (.array table)) ∧
        table.item? [1, 0] = some (.object 0)) ∧
      ∃ (heap : Heap) (record : Record) (reader : Reader) (array : NdArray),
        record.kind = .ndarray ∧
        record.KeepsItems heap [2] false mixedItems ∧
        array.Holds [2] false mixedItems ∧
        heap.rebuild record = .ok (heap.alloc (.array array)) ∧
        materialize keepingOctets (nestedPickle keepingOctets) .inline
            (placeholder 2)
            ⟨.ofBytes (headCode 2 ++ (mixedCode ++ tailCode) ++
              [Opcode.stop.code]), insideHeap .empty 2⟩ =
          .ok (heap.alloc (.array array)).1
            ⟨reader, (heap.alloc (.array array)).2⟩ := by
  have binds : (nestedOptions keepingOctets).registry.BindsArrays :=
    bindsArrays_keepingOctets
  have passage : Executes (nestedOptions keepingOctets)
      (headCode 2 ++ (mixedCode ++ tailCode))
      ⟨[], [], [], insideHeap .empty 2⟩
      ⟨[.object (recordPlace .empty 2)], [], [],
        withItems mixedHeap (recordPlace .empty 2) mixedItems⟩ :=
    (executes_headCode binds (by decide)).append
      ((executes_mixedCode _).append (executes_tailCode get_mixedHeap))
  have faces : (Reader.ofBytes (headCode 2 ++ (mixedCode ++ tailCode) ++
      [Opcode.stop.code])).Faces (headCode 2 ++ (mixedCode ++ tailCode) ++
        [Opcode.stop.code]) :=
    ⟨rfl, rfl⟩
  obtain ⟨reader, _, decoded⟩ := nestedPickle_of_executes passage faces
  obtain ⟨header, holdsObjects, announces⟩ :=
    (awaitsObjects_withPlaceholder .empty 2).isAnnounced
  have small : spreadOf [2] < 2 ^ 59 := by decide
  have keeps := keepsItems_filledRecord
    (get_withItems_list mixedItems get_mixedHeap)
  obtain ⟨array, holds, rebuilt, materializes⟩ := rebuild_keepsItems
    keepingOctets (by decide : [2].length ≤ 64) small rfl rfl keeps
  obtain ⟨table, tableHolds, tableRebuilt, _⟩ := rebuild_keepsItems
    keepingOctets (by decide : [2, 3].length ≤ 64) (by decide) rfl rfl
      keepsItems_tableRecord
  have isIndex : IsIndex [2, 3] [1, 0] := by decide
  obtain ⟨_, second⟩ := tableHolds.item [1, 0] isIndex
  exact ⟨by decide, small, rfl, ⟨table, tableHolds, tableRebuilt, second⟩, _,
    _, reader, array, rfl, keeps, holds, rebuilt,
    materializes _ header _ reader _ (announces _) holdsObjects decoded
      (get_withItems_place get_mixedHeap)⟩

end PickleGraph.Objects
