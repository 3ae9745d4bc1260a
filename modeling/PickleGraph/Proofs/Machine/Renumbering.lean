import PickleGraph.Proofs.Cut.Stream
import PickleGraph.Proofs.Machine.Slots
import PickleGraph.Proofs.Names.Listing

/-!
# Numbers of slots carry no meaning

The slots of the memo may be numbered in any other way that keeps them apart,
each opcode with its number written in any width. What is decoded stays the
same, up to the numbers in the memo, also where an array takes the place of a
placeholder. An opcode without a number is replaced by one that names the slot
which it has bound.
-/

namespace PickleGraph

open Actions

/-! ## Memos with other numbers -/

namespace Memo

/-- The memo with other numbers on its slots. -/
def renumbered (number : Nat → Nat) (memo : List (Nat × Value)) :
    List (Nat × Value) :=
  memo.map fun (slot, value) => (number slot, value)

theorem replace_renumbered (number : Nat → Nat) (address : Address)
    (array : Value) (memo : List (Nat × Value)) :
    renumbered number (replace address array memo) =
      replace address array (renumbered number memo) := by
  rw [replace_eq_map, replace_eq_map, renumbered, renumbered, List.map_map,
    List.map_map]
  rfl

variable {number : Nat → Nat} (injective : number.Injective)

include injective

theorem insert_renumbered (slot : Nat) (value : Value)
    (memo : List (Nat × Value)) :
    renumbered number (insert slot value memo) =
      insert (number slot) value (renumbered number memo) := by
  unfold renumbered
  induction memo with
  | nil => rfl
  | cons entry rest inductionHypothesis =>
      obtain ⟨bound, old⟩ := entry
      rw [List.map_cons, insert, insert, ← inductionHypothesis]
      by_cases same : bound = slot
      · rw [if_pos same, if_pos (congrArg number same)]
        rfl
      · rw [if_neg same, if_neg fun equal => same (injective equal)]
        rfl

theorem lookup_renumbered (slot : Nat) (memo : List (Nat × Value)) :
    (renumbered number memo).lookup (number slot) = memo.lookup slot := by
  unfold renumbered
  induction memo with
  | nil => rfl
  | cons entry rest inductionHypothesis =>
      rw [List.map_cons, List.lookup_cons, List.lookup_cons,
        inductionHypothesis]
      by_cases same : slot = entry.1
      · rw [beq_iff_eq.mpr same, beq_iff_eq.mpr (congrArg number same)]
      · rw [beq_false_of_ne same,
          beq_false_of_ne fun equal => same (injective equal)]

end Memo

/-- The change to other numbers of slots, with no history. -/
def Machine.Change.renumbering (number : Nat → Nat) : Machine.Change where
  reader := id
  memo := Memo.renumbered number
  offset := id
  history? _ := none

/-- The machine with other numbers of slots. -/
def Machine.renumbered (machine : Machine) (number : Nat → Nat) : Machine :=
  machine.changed (.renumbering number)

namespace Execution

variable {options : Options} {nested : Decoding Value}
variable {number : Nat → Nat}

/-! ## Opcodes that do not look at the memo -/

theorem keepsPlace_renumbering (number : Nat → Nat) :
    (Machine.Change.renumbering number).KeepsPlace :=
  ⟨fun _ => rfl, fun _ => rfl⟩

theorem overlooks_fillPlaceholder (address : Address) (record : Record) :
    Overlooks (.renumbering number)
      (fillPlaceholder options nested address record) := by
  unfold fillPlaceholder
  split
  · refine .bind (.decoding (keepsPlace_renumbering number) _) fun array => ?_
    exact .putArray fun memo => Memo.replace_renumbered number _ _ memo
  · exact .pure _

theorem overlooks_execute_renumbering {instruction : Instruction}
    (noMemo : asksMemo instruction = false) :
    Overlooks (.renumbering number)
      (execute options nested instruction) := by
  by_cases isBuild : instruction = .build
  · subst isBuild
    refine .bind ?_ fun _ => .pure _
    rw [giveState_eq]
    exact .bind .applyToTop fun target => overlooks_fillPlaceholder _ _
  · exact overlooks_execute_of_keepsPlace (keepsPlace_renumbering number)
      noMemo isBuild

/-- An opcode that does not look at the memo stands for an instruction that does
not either. -/
theorem noMemo_of_suits {opcode : Opcode} {instruction : Instruction}
    (noMemo : opcode.usesMemo = false)
    (suits : Instruction.Suits opcode instruction) :
    asksMemo instruction = false := by
  cases instruction with
  | get slot | put slot => cases noMemo.symm.trans suits
  | memoize =>
      obtain rfl : opcode = .memoize := suits
      cases noMemo
  | _ => rfl

theorem suits_decoding (rules : TextRules) (opcode : Opcode) :
    Returns (Instruction.Suits opcode)
      (decoding (Instruction.ofOpcode rules opcode)) := by
  intro machine instruction after success
  obtain ⟨source, argued, _⟩ := decoding_eq_ok_iff.mp success
  exact Instruction.suits_ofOpcode rules opcode _ _ _ argued

section Perform

variable {opcode : Opcode} (noMemo : opcode.usesMemo = false)

include noMemo

theorem overlooks_perform (number : Nat → Nat) (options : Options)
    (nested : Decoding Value) :
    Overlooks (.renumbering number) (perform options nested opcode) := by
  refine .bind_of_returns (.decoding (keepsPlace_renumbering number) _)
    (suits_decoding options.rules opcode) fun instruction suits => ?_
  refine .bind (overlooks_execute_renumbering (noMemo_of_suits noMemo suits))
    fun result => ?_
  dsimp only
  split
  · exact .bind (.modify fun _ => rfl) fun _ => .pure _
  · exact .pure _

theorem slots_of_perform {machine after : Machine} {result : Option Value}
    (performed : perform options nested opcode machine = .ok result after) :
    after.memo.map Prod.fst = machine.memo.map Prod.fst := by
  obtain ⟨instruction, middle, last, argued, executed, rfl⟩ :=
    perform_eq_ok_iff.mp performed
  have suits := suits_decoding options.rules opcode _ _ _ argued
  have slots := slots_of_execute (noMemo_of_suits noMemo suits) executed
  obtain ⟨source, _, rfl⟩ := decoding_eq_ok_iff.mp argued
  cases result <;> exact slots

end Perform

/-! ## Opcodes with the number of a slot -/

/-- An opcode with the number of a slot, on a line or in some octets. -/
inductive NamesSlot (onLine : Opcode) (width? : Opcode → Option Nat)
    (slot : Nat) : Bytes → Prop
  | line {digits : Bytes} : (0x0A : UInt8) ∉ digits →
      (Integer.parse? digits <|> Integer.parseDecimal? digits) =
        some (slot : Int) →
      NamesSlot onLine width? slot (onLine.code :: (digits ++ [0x0A]))
  | octets {opcode : Opcode} {data : Bytes} :
      width? opcode = some data.length → Bytes.toNatLE data = slot →
      NamesSlot onLine width? slot (opcode.code :: data)

/-- An opcode that binds a slot by its number. -/
abbrev IsPut : Nat → Bytes → Prop :=
  NamesSlot .put Graph.putWidth?

/-- An opcode that fetches a slot. -/
abbrev IsGet : Nat → Bytes → Prop :=
  NamesSlot .get Graph.getWidth?

/-- The item is an opcode with an argument that stands for an instruction. No
frame is opened. -/
def Spells (rules : TextRules) (instruction : Instruction) (item : Bytes) :
    Prop :=
  ∃ opcode argument, item = opcode.code :: argument ∧
    opcode ≠ .frame ∧
    Decoding.Takes (Instruction.ofOpcode rules opcode) argument instruction

/-- Opcodes that stand for the same instruction of a slot, on a line or in some
octets. -/
structure Family (rules : TextRules) (onLine : Opcode)
    (width? : Opcode → Option Nat) (make : Int → Instruction)
    (name : String) : Prop where
  noFrame : onLine ≠ .frame
  ofLine : Instruction.ofOpcode rules onLine = do
    return make (← Instruction.numeral name (← Instruction.line))
  ofOctets : ∀ {opcode width}, width? opcode = some width →
    opcode ≠ .frame ∧ width < 2 ^ 63 ∧
      Instruction.ofOpcode rules opcode = do
        return make (← Instruction.natural width)

theorem puts (rules : TextRules) :
    Family rules .put Graph.putWidth? .put "PUT" where
  noFrame := Opcode.noConfusion
  ofLine := rfl
  ofOctets := by
    intro opcode width isWidth
    cases opcode <;> cases isWidth <;>
      exact ⟨Opcode.noConfusion, by decide, rfl⟩

theorem gets (rules : TextRules) :
    Family rules .get Graph.getWidth? .get "GET" where
  noFrame := Opcode.noConfusion
  ofLine := rfl
  ofOctets := by
    intro opcode width isWidth
    cases opcode <;> cases isWidth <;>
      exact ⟨Opcode.noConfusion, by decide, rfl⟩

namespace Family

open Decoding Instruction

variable {rules : TextRules} {onLine opcode : Opcode}
variable {width? : Opcode → Option Nat} {make : Int → Instruction}
variable {name : String} (family : Family rules onLine width? make name)

include family

theorem spells {slot : Nat} {item : Bytes}
    (names : NamesSlot onLine width? slot item) :
    Spells rules (make slot) item := by
  cases names with
  | @line digits noNewline parsed =>
      have taken : Takes (numeral name digits) [] slot := by
        rw [numeral, parsed]
        exact .pure _
      refine ⟨onLine, _, rfl, family.noFrame, ?_⟩
      rw [family.ofLine]
      exact .bind_nil (takes_line noNewline) (.map make taken)
  | @octets opcode data isWidth isSlot =>
      obtain ⟨isOther, narrow, parses⟩ := family.ofOctets isWidth
      have taken : Takes (natural data.length) data slot :=
        isSlot ▸ .map Bytes.toNatLE (.read data narrow)
      refine ⟨opcode, data, rfl, isOther, ?_⟩
      rw [parses]
      exact .map (fun number : Nat => make number) taken

/-- Whatever is read behind such an opcode is the number of a slot. -/
theorem exists_namesSlot {source after : Source} {bytes : Bytes}
    {instruction : Instruction}
    (isMember : opcode = onLine ∨ ∃ width, width? opcode = some width)
    (holds : source.reader.Holds bytes)
    (parsed : ofOpcode rules opcode source = .ok instruction after) :
    ∃ (number : Int) (payload more : Bytes), instruction = make number ∧
      bytes = payload ++ more ∧ after.reader.Holds more ∧
      ∀ slot : Nat, number = slot →
        NamesSlot onLine width? slot (opcode.code :: payload) := by
  rcases isMember with rfl | ⟨width, isWidth⟩
  · rw [family.ofLine] at parsed
    obtain ⟨digits, middle, readLine, parsed⟩ := bind_eq_ok_iff.mp parsed
    obtain ⟨number, _, isNumber, made⟩ := bind_eq_ok_iff.mp parsed
    obtain ⟨data, _, fetched, isContent⟩ := bind_eq_ok_iff.mp readLine
    obtain ⟨reader, taken, rfl⟩ := reading_eq_ok_iff.mp fetched
    obtain ⟨more, rest, ⟨content, rfl, noNewline⟩, stillHolds⟩ :=
      holds.readLine_eq_ok taken
    cases isContent
    rw [List.dropLast_concat] at isNumber
    cases found :
        (Integer.parse? content <|> Integer.parseDecimal? content) with
    | none =>
        rw [numeral, found] at isNumber
        cases isNumber
    | some other =>
        rw [numeral, found] at isNumber
        cases isNumber
        cases made
        refine ⟨_, _, more, rfl, rest, stillHolds, ?_⟩
        rintro slot rfl
        exact .line noNewline found
  · obtain ⟨_, _, parses⟩ := family.ofOctets isWidth
    rw [parses] at parsed
    obtain ⟨number, _, readNumber, made⟩ := bind_eq_ok_iff.mp parsed
    obtain ⟨data, _, fetched, isNumber⟩ := bind_eq_ok_iff.mp readNumber
    obtain ⟨reader, taken, rfl⟩ := reading_eq_ok_iff.mp fetched
    obtain ⟨more, rest, length, stillHolds⟩ := holds.read_eq_ok taken
    cases isNumber
    cases made
    refine ⟨_, data, more, rfl, rest, stillHolds, fun slot same => ?_⟩
    exact .octets (length ▸ isWidth) (Int.ofNat.inj same)

end Family

theorem spells_memoize (rules : TextRules) :
    Spells rules .memoize [Opcode.memoize.code] :=
  ⟨.memoize, [], rfl, Opcode.noConfusion, .pure Instruction.memoize⟩

/-! ## Streams with other numbers -/

/-- What takes the place of an item of a stream, with the slots that are bound
before and after it. -/
inductive RenumbersItem (number : Nat → Nat) (bound : List Nat) :
    Bytes → Bytes → List Nat → Prop
  | kept {opcode : Opcode} {argument : Bytes} :
      opcode.usesMemo = false → opcode ≠ .frame →
      RenumbersItem number bound (opcode.code :: argument)
        (opcode.code :: argument) bound
  | put {slot : Nat} {item other : Bytes} :
      IsPut slot item → IsPut (number slot) other →
      RenumbersItem number bound item other (Memo.bindSlot slot bound)
  | get {slot : Nat} {item other : Bytes} :
      IsGet slot item → IsGet (number slot) other →
      RenumbersItem number bound item other bound
  | memoize {other : Bytes} : IsPut (number bound.length) other →
      RenumbersItem number bound [Opcode.memoize.code] other
        (Memo.bindSlot bound.length bound)

/-- The items of a stream without frames after some slots have been bound, and
the stream with other numbers of slots. -/
inductive Renumbering (number : Nat → Nat) :
    List Nat → List Bytes → Bytes → Prop
  | done {bound : List Nat} : Renumbering number bound [] []
  | next {bound further : List Nat} {item other : Bytes}
      {items : List Bytes} {bytes : Bytes} :
      RenumbersItem number bound item other further →
      Renumbering number further items bytes →
      Renumbering number bound (item :: items) (other ++ bytes)

/-! ## Instructions with other numbers -/

/-- Where some slots are bound, one instruction does with the memo what another
one does with the memo with other numbers. -/
def Renumbers (options : Options) (number : Nat → Nat) (bound : List Nat)
    (instruction other : Instruction) (further : List Nat) : Prop :=
  ∀ {machine after : Machine} {result : Option Value},
    machine.memo.map Prod.fst = bound →
    execute options (nestedPickle options) instruction machine =
      .ok result after →
    execute options (nestedPickle options) other
        (machine.renumbered number) =
      .ok result (after.renumbered number) ∧
    after.memo.map Prod.fst = further

/-- What looks at the memo opens no frame and gives no state. -/
theorem stationary_of_asksMemo (options : Options) (nested : Decoding Value)
    {instruction : Instruction} (asks : asksMemo instruction = true) :
    Stationary (execute options nested instruction) := by
  refine stationary_execute options nested instruction ?_ ?_
  · rintro size rfl
    cases asks
  · rintro rfl
    cases asks

section Instructions

variable (injective : number.Injective) (options : Options)
variable (bound : List Nat)

include injective

theorem renumbers_put (slot : Nat) :
    Renumbers options number bound (.put slot) (.put (number slot))
      (Memo.bindSlot slot bound) := by
  intro machine after result slots executed
  obtain ⟨rfl, _, top, below, stack, rfl⟩ :=
    execute_put_eq_ok_iff.mp executed
  constructor
  · refine execute_put_eq_ok_iff.mpr
      ⟨rfl, Int.natCast_nonneg _, top, below, stack, ?_⟩
    have inserted := Memo.insert_renumbered injective slot top machine.memo
    exact congrArg
      (fun memo => { machine.renumbered number with memo }) inserted
  · exact (Memo.slots_insert slot top machine.memo).trans (slots ▸ rfl)

theorem renumbers_memoize :
    Renumbers options number bound .memoize (.put (number bound.length))
      (Memo.bindSlot bound.length bound) := by
  intro machine after result slots executed
  obtain ⟨rfl, top, below, stack, rfl⟩ :=
    execute_memoize_eq_ok_iff.mp executed
  have length : bound.length = machine.memo.length := by
    rw [← slots, List.length_map]
  rw [length]
  refine renumbers_put injective options bound machine.memo.length slots ?_
  exact execute_put_eq_ok_iff.mpr
    ⟨rfl, Int.natCast_nonneg _, top, below, stack, rfl⟩

theorem renumbers_get (slot : Nat) :
    Renumbers options number bound (.get slot) (.get (number slot))
      bound := by
  intro machine after result slots executed
  obtain ⟨rfl, value, _, isHeld, rfl⟩ := execute_get_eq_ok_iff.mp executed
  refine ⟨execute_get_eq_ok_iff.mpr
    ⟨rfl, value, Int.natCast_nonneg _, ?_, rfl⟩, slots⟩
  exact (Memo.lookup_renumbered injective slot machine.memo).trans isHeld

end Instructions

/-! ## One item -/

theorem readInstruction_of_spells {rules : TextRules}
    {instruction : Instruction} {item rest : Bytes} {machine : Machine}
    (spells : Spells rules instruction item)
    (faces : machine.source.reader.Faces (item ++ rest)) :
    ∃ opened, readInstruction rules machine = .ok instruction opened ∧
      opened.source.reader.Faces rest ∧
      opened = machine.standingAt opened := by
  obtain ⟨opcode, argument, rfl, _, taken⟩ := spells
  obtain ⟨middle, middleFaces, read⟩ := readOpcode_of_faces faces
  obtain ⟨reader, restFaces, parsed⟩ :=
    taken rest (machine.beyond middle).source middleFaces
  refine ⟨{ machine.beyond middle with
    source := { machine.source with reader } }, ?_, restFaces, rfl⟩
  exact (bind_of_eq_ok read).trans
    (decoding_eq_ok_iff.mpr ⟨_, parsed, rfl⟩)

/-- A machine of a stream without frames, and a machine with other numbers of
slots before other bytes. -/
structure Alike (number : Nat → Nat) (bound : List Nat) (bytes : Bytes)
    (whole other : Machine) : Prop where
  holds : whole.source.reader.Holds whole.source.reader.unread
  slots : whole.memo.map Prod.fst = bound
  same : other = (whole.renumbered number).standingAt other
  reader : other.source.reader.Holds bytes

variable {whole other after : Machine} {result : Option Value}
variable {bound further : List Nat} {item written tail : Bytes}

/-- No frame is opened but by its opcode. -/
theorem holds_step (holds : whole.source.reader.Holds (item ++ tail))
    (noFrame : item.head? ≠ some Opcode.frame.code)
    (stepped : step options (nestedPickle options) whole = .ok result after)
    (unread : after.source.reader.unread = tail) :
    after.source.reader.Holds tail := by
  subst unread
  have bytes := holds.unread
  rw [← bytes] at holds
  obtain ⟨_, _, held, _⟩ := alike_step holds
    ⟨rfl, .of_holds (bytes ▸ holds)⟩ noFrame stepped bytes
  exact held

theorem head?_ne_frame {opcode : Opcode} {argument : Bytes}
    (noFrame : opcode ≠ .frame) :
    (opcode.code :: argument).head? ≠ some Opcode.frame.code :=
  fun same => noFrame (code_injective (Option.some.inj same))

theorem Spells.noFrame {rules : TextRules} {instruction : Instruction}
    (spells : Spells rules instruction item) :
    item.head? ≠ some Opcode.frame.code := by
  obtain ⟨opcode, argument, rfl, noFrame, _⟩ := spells
  exact head?_ne_frame noFrame

/-- An opcode that does not look at the memo does the same beside other numbers
of slots. -/
theorem step_renumbered {opcode : Opcode} {argument : Bytes}
    (noMemo : opcode.usesMemo = false)
    (holds : whole.source.reader.Holds whole.source.reader.unread)
    (stepped : step options (nestedPickle options) whole = .ok result after)
    (unread : whole.source.reader.unread =
      opcode.code :: argument ++ after.source.reader.unread) :
    step options (nestedPickle options) (whole.renumbered number) =
        .ok result (after.renumbered number) ∧
      after.memo.map Prod.fst = whole.memo.map Prod.fst := by
  obtain ⟨found, middle, payload, same, read, performed, _⟩ :=
    step_inv (readOn_nestedPickle options) holds stepped unread
  obtain rfl : opcode = found := code_injective (List.cons.inj same).1
  constructor
  · have readAlike := Overlooks.readOpcode (keepsPlace_renumbering number)
      whole
    have performedAlike := overlooks_perform noMemo number options
      (nestedPickle options) middle
    rw [read] at readAlike
    rw [performed] at performedAlike
    exact (bind_of_eq_ok readAlike).trans performedAlike
  · rw [slots_of_perform noMemo performed, opened_eq read]

theorem unread_of_serves {reader : Reader}
    (serves : Reader.Serves tail none [] reader) : reader.unread = tail := by
  cases serves
  rfl

theorem Alike.step_kept {opcode : Opcode} {argument : Bytes}
    (noMemo : opcode.usesMemo = false) (noFrame : opcode ≠ .frame)
    (alike : Alike number bound (opcode.code :: argument ++ tail) whole other)
    (stepped : step options (nestedPickle options) whole = .ok result after)
    (unread : whole.source.reader.unread =
      opcode.code :: argument ++ after.source.reader.unread) :
    ∃ next, step options (nestedPickle options) other = .ok result next ∧
      Alike number bound tail after next := by
  have isOther :
      (opcode.code :: argument).head? ≠ some Opcode.frame.code :=
    head?_ne_frame noFrame
  obtain ⟨steppedAlike, slots⟩ :=
    step_renumbered noMemo alike.holds stepped unread
  have holds : (whole.renumbered number).source.reader.Holds
      (whole.renumbered number).source.reader.unread := alike.holds
  obtain ⟨next, steppedOther, stillHolds, serves⟩ :=
    alike_step holds ⟨alike.same, .of_holds alike.reader⟩ isOther
      steppedAlike unread
  refine ⟨next, steppedOther, stillHolds, slots.trans alike.slots,
    serves.same, ?_⟩
  exact holds_step alike.reader isOther steppedOther
    (unread_of_serves serves.reader)

theorem Alike.step_spelled {instruction renamed : Instruction}
    (renumbers : Renumbers options number bound instruction renamed further)
    (asks : asksMemo renamed = true)
    (spells : Spells options.rules instruction item)
    (spellsRenamed : Spells options.rules renamed written)
    (alike : Alike number bound (written ++ tail) whole other)
    (stepped : step options (nestedPickle options) whole = .ok result after)
    (unread : whole.source.reader.unread =
      item ++ after.source.reader.unread) :
    ∃ next, step options (nestedPickle options) other = .ok result next ∧
      Alike number further tail after next := by
  have holds := alike.holds
  rw [unread] at holds
  obtain ⟨opened, read, _, still⟩ :=
    readInstruction_of_spells spells holds.faces
  obtain ⟨last, opcode, executed, rfl⟩ :=
    step_eq_ok_of_readInstruction read stepped
  obtain ⟨openedOther, readOther, tailFaces, stillOther⟩ :=
    readInstruction_of_spells spellsRenamed alike.reader.faces
  have slots : opened.memo.map Prod.fst = bound := by
    rw [still]
    exact alike.slots
  obtain ⟨executedRenamed, furtherSlots⟩ := renumbers slots executed
  have place : openedOther =
      (opened.renumbered number).standingAt openedOther := by
    rw [still]
    calc openedOther = other.standingAt openedOther := stillOther
      _ = ((whole.renumbered number).standingAt other).standingAt
            openedOther := by rw [← alike.same]
  have executedOther := stationary_of_asksMemo options
    (nestedPickle options) asks (opened.renumbered number) openedOther
  rw [executedRenamed, ← place] at executedOther
  obtain ⟨otherOpcode, steppedOther⟩ :=
    step_of_readInstruction readOther (nestedPickle options)
  rw [executedOther] at steppedOther
  refine ⟨_, steppedOther, ?_, ?_, ?_, ?_⟩
  · exact holds_step holds spells.noFrame stepped rfl
  · rw [recorded_memo]
    exact furtherSlots
  · cases result <;> rfl
  · refine holds_step alike.reader spellsRenamed.noFrame steppedOther ?_
    cases result <;> exact tailFaces.unread

theorem Alike.step (injective : number.Injective)
    (renumbers : RenumbersItem number bound item written further)
    (alike : Alike number bound (written ++ tail) whole other)
    (stepped : Execution.step options (nestedPickle options) whole =
      .ok result after)
    (unread : whole.source.reader.unread =
      item ++ after.source.reader.unread) :
    ∃ next, Execution.step options (nestedPickle options) other =
        .ok result next ∧
      Alike number further tail after next := by
  cases renumbers with
  | kept noMemo noFrame =>
      exact alike.step_kept noMemo noFrame stepped unread
  | put isPut isRenamed =>
      exact alike.step_spelled (renumbers_put injective options bound _) rfl
        ((puts _).spells isPut) ((puts _).spells isRenamed) stepped
        unread
  | get isGet isRenamed =>
      exact alike.step_spelled (renumbers_get injective options bound _) rfl
        ((gets _).spells isGet) ((gets _).spells isRenamed) stepped
        unread
  | memoize isPut =>
      exact alike.step_spelled (renumbers_memoize injective options bound) rfl
        (spells_memoize options.rules) ((puts _).spells isPut) stepped
        unread

/-! ## Streams that can be renumbered -/

theorem usesMemo_cases (opcode : Opcode) :
    opcode.usesMemo = false ∨ opcode = .memoize ∨
      (opcode = .put ∨ ∃ width, Graph.putWidth? opcode = some width) ∨
      (opcode = .get ∨ ∃ width, Graph.getWidth? opcode = some width) := by
  cases opcode <;> simp [Opcode.usesMemo, Graph.putWidth?, Graph.getWidth?]

section Executed

variable {opcode : Opcode} {middle : Machine} {payload : Bytes}
variable (middleHolds : middle.source.reader.Holds
  (payload ++ after.source.reader.unread))
variable (performed : perform options (nestedPickle options) opcode middle =
  .ok result after)

include middleHolds performed

/-- What looks at the memo reads nothing but its argument. -/
theorem unread_of_perform {more : Bytes} {instruction : Instruction}
    {source : Source}
    (parsed : Instruction.ofOpcode options.rules opcode middle.source =
      .ok instruction source)
    (asks : asksMemo instruction = true)
    (left : source.reader.Holds more) :
    (∃ result last, execute options (nestedPickle options) instruction
      { middle with source } = .ok result last) ∧
      after.source.reader.unread = more := by
  obtain ⟨found, _, last, argued, executed, rfl⟩ :=
    perform_eq_ok_iff.mp performed
  obtain ⟨_, parsedAgain, rfl⟩ := decoding_eq_ok_iff.mp argued
  cases parsed.symm.trans parsedAgain
  have stays := (stationary_of_asksMemo options (nestedPickle options)
    asks).source_reader { middle with source }
  rw [executed] at stays
  refine ⟨⟨_, _, executed⟩, ?_⟩
  rw [← left.unread]
  cases result <;> exact congrArg Reader.unread stays

/-- An executed opcode of a family has the number of a slot behind it. -/
theorem Family.exists_slot {onLine : Opcode} {width? : Opcode → Option Nat}
    {make : Int → Instruction} {name : String}
    (family : Family options.rules onLine width? make name)
    (isMember : opcode = onLine ∨ ∃ width, width? opcode = some width)
    (asks : ∀ number, asksMemo (make number) = true)
    (isNatural : ∀ {number : Int} {machine last : Machine}
      {value : Option Value},
      execute options (nestedPickle options) (make number) machine =
        .ok value last → 0 ≤ number) :
    ∃ slot : Nat, NamesSlot onLine width? slot (opcode.code :: payload) := by
  obtain ⟨_, _, _, argued, _, _⟩ := perform_eq_ok_iff.mp performed
  obtain ⟨source, parsed, _⟩ := decoding_eq_ok_iff.mp argued
  obtain ⟨number, argument, more, rfl, bytes, left, names⟩ :=
    family.exists_namesSlot isMember middleHolds parsed
  obtain ⟨⟨_, _, executed⟩, unread⟩ := unread_of_perform middleHolds performed
    parsed (asks number) left
  rw [unread] at bytes
  obtain rfl : payload = argument := List.append_cancel_right bytes
  exact ⟨number.toNat,
    names _ (Int.toNat_of_nonneg (isNatural executed)).symm⟩

theorem exists_renumbersItem (noFrame : opcode ≠ .frame)
    (bound : List Nat) {putForm getForm : Nat → Bytes}
    (isPut : ∀ slot, IsPut (number slot) (putForm slot))
    (isGet : ∀ slot, IsGet (number slot) (getForm slot)) :
    ∃ written further,
      RenumbersItem number bound (opcode.code :: payload) written
        further := by
  rcases usesMemo_cases opcode with noMemo | rfl | isMember | isMember
  · exact ⟨_, _, .kept noMemo noFrame⟩
  · obtain ⟨_, unread⟩ := unread_of_perform middleHolds performed rfl rfl
      middleHolds
    obtain rfl : payload = [] :=
      List.self_eq_append_left.mp unread
    exact ⟨_, _, .memoize (isPut _)⟩
  · obtain ⟨slot, names⟩ := Family.exists_slot middleHolds performed
      (puts options.rules) isMember (fun _ => rfl)
      fun executed => (execute_put_eq_ok_iff.mp executed).2.1
    exact ⟨_, _, .put names (isPut slot)⟩
  · obtain ⟨slot, names⟩ := Family.exists_slot middleHolds performed
      (gets options.rules) isMember (fun _ => rfl)
      fun executed => (execute_get_eq_ok_iff.mp executed).2.choose_spec.1
    exact ⟨_, _, .get names (isGet slot)⟩

end Executed

/-- Any items without frames can be renumbered, whatever the slots that are
bound. -/
theorem exists_renumbering_itemsFrom {putForm getForm : Nat → Bytes}
    (isPut : ∀ slot, IsPut (number slot) (putForm slot))
    (isGet : ∀ slot, IsGet (number slot) (getForm slot)) (steps : Nat)
    (bound : List Nat)
    (holds : whole.source.reader.Holds whole.source.reader.unread)
    (noFrame : ∀ item ∈ itemsFrom options steps whole,
      item.head? ≠ some Opcode.frame.code) :
    ∃ bytes, Renumbering number bound (itemsFrom options steps whole)
      bytes := by
  induction steps generalizing whole bound with
  | zero => exact ⟨[], .done⟩
  | succ steps inductionHypothesis =>
      rw [itemsFrom] at noFrame ⊢
      cases stepped : step options (nestedPickle options) whole with
      | error failure after => exact ⟨[], .done⟩
      | ok result after =>
          rw [stepped] at noFrame
          have unread := unread_of_step stepped
          obtain ⟨opcode, middle, payload, item, read, performed, rest⟩ :=
            step_inv (readOn_nestedPickle options) holds stepped unread
          obtain ⟨more, bytes, middleHolds⟩ := holds_readOpcode holds read
          rw [← middleHolds.unread, rest] at middleHolds
          have isOther : opcode ≠ .frame := by
            rintro rfl
            cases result <;>
              exact noFrame _ List.mem_cons_self (by rw [item]; rfl)
          obtain ⟨written, further, renumbers⟩ := exists_renumbersItem
            middleHolds performed isOther bound isPut isGet
          rw [← item] at renumbers
          cases result with
          | some value => exact ⟨_, .next renumbers .done⟩
          | none =>
              rw [unread] at holds
              have left := holds_step holds
                (item ▸ head?_ne_frame isOther) stepped rfl
              obtain ⟨others, renumbering⟩ := inductionHypothesis further
                left fun later member =>
                  noFrame later (List.mem_cons_of_mem _ member)
              exact ⟨_, .next renumbers renumbering⟩

/-- A stream without frames can be renumbered in any forms that hold the new
numbers. -/
theorem exists_renumbering {content : Bytes} {putForm getForm : Nat → Bytes}
    (isPut : ∀ slot, IsPut (number slot) (putForm slot))
    (isGet : ∀ slot, IsGet (number slot) (getForm slot))
    (noFrame : ∀ item ∈ options.items content,
      item.head? ≠ some Opcode.frame.code) :
    ∃ bytes, Renumbering number [] (options.items content) bytes :=
  exists_renumbering_itemsFrom isPut isGet _ [] ⟨0, 0, rfl⟩ noFrame

/-! ## Whole streams -/

/-- Both machines come to the same end, with other numbers in the memo. -/
theorem Alike.run (injective : number.Injective) {steps : Nat}
    {bytes : Bytes} {value : Value} {last : Machine}
    (enough : whole.size < steps)
    (finished : runToEnd options whole = .ok value last)
    (renumbering : Renumbering number bound (itemsFrom options steps whole)
      bytes)
    (alike : Alike number bound (bytes ++ tail) whole other) :
    ∃ end_, runToEnd options other = .ok value end_ ∧
      end_.heap = last.heap ∧
      end_.memo = Memo.renumbered number last.memo := by
  induction steps generalizing whole other bound bytes with
  | zero => exact absurd enough (Nat.not_lt_zero _)
  | succ steps inductionHypothesis =>
      obtain ⟨result, after, stepped, unread, smaller, rest⟩ :=
        step_of_runToEnd finished
      rw [itemsFrom, stepped] at renumbering
      cases result with
      | some final =>
          cases rest
          cases renumbering with
          | next renumbers others =>
              rw [List.append_assoc] at alike
              obtain ⟨end_, steppedOther, ended⟩ :=
                alike.step injective renumbers stepped unread
              refine ⟨end_, runToEnd_of_finish steppedOther, ?_, ?_⟩ <;>
                rw [ended.same] <;> rfl
      | none =>
          cases renumbering with
          | next renumbers others =>
              rw [List.append_assoc] at alike
              obtain ⟨next, steppedOther, still⟩ :=
                alike.step injective renumbers stepped unread
              obtain ⟨end_, finishedOther, heap, memo⟩ :=
                inductionHypothesis (by omega) rest others still
              exact ⟨end_, (runToEnd_of_step steppedOther).trans
                finishedOther, heap, memo⟩

/-- A stream without frames decodes to the same value and the same heap with any
other numbers of slots, in any widths, and leaves the same memo but for the
numbers. -/
theorem decode_renumbering (injective : number.Injective)
    {content bytes : Bytes} {value : Value} {heap : Heap}
    (decoded : options.decode content = .ok (value, heap))
    (renumbering : Renumbering number [] (options.items content) bytes)
    (rest : Bytes) :
    options.decode (bytes ++ rest) = .ok (value, heap) ∧
      ∃ last end_ : Machine,
        Machine.load options
            (Machine.ofReader (.ofBytes content) .empty false) =
          .ok value last ∧
        Machine.load options
            (Machine.ofReader (.ofBytes (bytes ++ rest)) .empty false) =
          .ok value end_ ∧
        end_.memo = Memo.renumbered number last.memo := by
  obtain ⟨last, finished, rfl⟩ := decode_eq_ok_iff.mp decoded
  have alike : Alike number [] (bytes ++ rest) (startOn content)
      (startOn (bytes ++ rest)) :=
    ⟨⟨0, 0, rfl⟩, rfl, rfl, ⟨0, 0, rfl⟩⟩
  obtain ⟨end_, finishedOther, same, memo⟩ :=
    alike.run injective (Nat.lt_succ_self _) finished renumbering
  exact ⟨decode_eq_ok_iff.mpr ⟨end_, finishedOther, same⟩, last, end_,
    finished, finishedOther, memo⟩

/-! ## Arrays bound ahead of their payload -/

/-- Opcodes that do not look at the memo, with their arguments. -/
def bytesOf (opcodes : List (Opcode × Bytes)) : List Bytes :=
  opcodes.map fun (opcode, argument) => opcode.code :: argument

theorem Renumbering.keeps {bound : List Nat} {items : List Bytes}
    {bytes : Bytes} {opcodes : List (Opcode × Bytes)}
    (noMemo : ∀ entry ∈ opcodes,
      entry.1.usesMemo = false ∧ entry.1 ≠ .frame)
    (renumbering : Renumbering number bound items bytes) :
    Renumbering number bound (bytesOf opcodes ++ items)
      ((bytesOf opcodes).flatten ++ bytes) := by
  induction opcodes with
  | nil => exact renumbering
  | cons entry rest inductionHypothesis =>
      obtain ⟨first, others⟩ := List.forall_mem_cons.mp noMemo
      have head : RenumbersItem number bound (entry.1.code :: entry.2)
          (entry.1.code :: entry.2) bound := .kept first.1 first.2
      have later := Renumbering.next head (inductionHypothesis others)
      rw [← List.append_assoc] at later
      exact later

/-- A placeholder for an array. -/
def placeholderOpcodes : List (Opcode × Bytes) :=
  [(.global, [0x6D, 0x0A, 0x6E, 0x0A]), (.emptyTuple, []), (.newObj, [])]

/-- The state of a placeholder, the line of two elements that is read for it, and
the opcode that takes its array from the stack. -/
def stateOpcodes : List (Opcode × Bytes) :=
  [(.emptyDict, []), (.mark, []),
    (.shortBinString, 5 :: Bytes.ofString "dtype"),
    (.shortBinString, 3 :: Bytes.ofString "|u1"),
    (.shortBinString, 5 :: Bytes.ofString "shape"), (.binInt1, [2]),
    (.tuple1, []), (.setItems, []), (.build, [7, 9]), (.pop, [])]

/-- A placeholder that is bound before it gets its state, so that the array is
fetched from the memo. -/
def boundArray (put get : Bytes) : Bytes :=
  (bytesOf placeholderOpcodes).flatten ++
    (put ++ ((bytesOf stateOpcodes).flatten ++ (get ++ ([0x2E] ++ []))))

/-- The array is bound without a number, or on a line to a higher one. -/
theorem renumbering_boundArray :
    Renumbering (· + 300) [] (payloadType.items (boundArray [0x94] [0x68, 0]))
      (boundArray [0x70, 0x33, 0x30, 0x30, 0x0A] [0x6A, 0x2C, 1, 0, 0]) := by
  have items : payloadType.items (boundArray [0x94] [0x68, 0]) =
      bytesOf placeholderOpcodes ++ [0x94] ::
        (bytesOf stateOpcodes ++ [[0x68, 0], [0x2E]]) := by
    decide +kernel
  have put : IsPut 300 [0x70, 0x33, 0x30, 0x30, 0x0A] :=
    @NamesSlot.line _ _ _ [0x33, 0x30, 0x30] (by decide) (by decide +kernel)
  have fetched : IsGet 0 [0x68, 0] :=
    @NamesSlot.octets _ _ _ .binGet [0] rfl rfl
  have fetchedHigher : IsGet 300 [0x6A, 0x2C, 1, 0, 0] :=
    @NamesSlot.octets _ _ _ .longBinGet [0x2C, 1, 0, 0] rfl rfl
  have stop : RenumbersItem (· + 300) [0] [0x2E] [0x2E] [0] :=
    @RenumbersItem.kept _ _ .stop [] rfl (by decide)
  rw [items]
  refine .keeps (by decide) (.next (.memoize put) ?_)
  refine .keeps (by decide) (.next (.get fetched fetchedHigher) ?_)
  exact .next stop .done

theorem decode_boundArray :
    ∃ value heap,
      payloadType.decode (boundArray [0x94] [0x68, 0]) = .ok (value, heap) ∧
      (heap.array? value).isSome = true ∧
      payloadType.decode
          (boundArray [0x70, 0x33, 0x30, 0x30, 0x0A] [0x6A, 0x2C, 1, 0, 0] ++
            []) = .ok (value, heap) ∧
      ∃ last end_ : Machine,
        Machine.load payloadType
            (Machine.ofReader (.ofBytes (boundArray [0x94] [0x68, 0]))
              .empty false) = .ok value last ∧
        Machine.load payloadType
            (Machine.ofReader
              (.ofBytes
                (boundArray [0x70, 0x33, 0x30, 0x30, 0x0A]
                  [0x6A, 0x2C, 1, 0, 0] ++ []))
              .empty false) = .ok value end_ ∧
        end_.memo = Memo.renumbered (· + 300) last.memo := by
  have success :
      (payloadType.decode (boundArray [0x94] [0x68, 0])).toOption.any
        (fun final => (final.2.array? final.1).isSome) = true := by
    decide +kernel
  have injective : Function.Injective (· + 300 : Nat → Nat) :=
    fun _ _ same => Nat.add_right_cancel same
  generalize result : payloadType.decode (boundArray [0x94] [0x68, 0]) =
    outcome at success
  cases outcome with
  | error failure => exact absurd success Bool.false_ne_true
  | ok final =>
      obtain ⟨value, heap⟩ := final
      exact ⟨value, heap, rfl, success,
        decode_renumbering injective result renumbering_boundArray []⟩

end Execution

end PickleGraph
