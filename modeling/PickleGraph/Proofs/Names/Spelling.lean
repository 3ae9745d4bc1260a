import PickleGraph.Proofs.Framing.Stream
import PickleGraph.Proofs.Framing.Upkeep
import PickleGraph.Proofs.Names.Machine

/-!
# Other spellings of a program

Two opcodes name a type in the stream. Where a registry binds another name to
the same strategy, the opcode may name that one. The reference that it makes, and
the instances made of the reference, are called so then.
-/

namespace PickleGraph

open Actions

/-! ## Spellings -/

/-- The opcodes that name a type, with the instructions they stand for. -/
inductive Opcode.NamesType : Opcode → (TypeKey → Instruction) → Prop
  | «global» : NamesType .global fun key => .global key.module key.name
  | inst : NamesType .inst fun key => .inst key.module key.name

theorem Opcode.NamesType.injective {opcode : Opcode}
    {instruct : TypeKey → Instruction}
    (namesType : opcode.NamesType instruct) :
    Function.Injective instruct := by
  rintro ⟨module, name⟩ ⟨otherModule, otherName⟩ same
  cases namesType <;> cases same <;> rfl

/-- A line of an opcode that names a type, without its newline. -/
structure SpellsText (line : Bytes) (text : Text) : Prop where
  noNewline : (0x0A : UInt8) ∉ line
  isText : Utf8.decode line = .ok text

/-- The two lines that name a type behind an opcode. -/
def SpellsLines (key : TypeKey) (lines : Bytes) : Prop :=
  ∃ module name, SpellsText module key.module ∧ SpellsText name key.name ∧
    lines = module ++ 0x0A :: (name ++ [0x0A])

/-- Items of a stream, some of which name their types by other names of the same
strategies. -/
inductive Respelling (registry : Registry) :
    List Bytes → List (Option TypeKey) → Bytes → Prop
  | done : Respelling registry [] [] []
  | keep {item : Bytes} {items : List Bytes} {names : List (Option TypeKey)}
      {bytes : Bytes} :
      Respelling registry items names bytes →
      Respelling registry (item :: items) (none :: names) (item ++ bytes)
  | rename {opcode : Opcode} {instruct : TypeKey → Instruction}
      {key other : TypeKey} {lines otherLines : Bytes} {items : List Bytes}
      {names : List (Option TypeKey)} {bytes : Bytes} :
      opcode.NamesType instruct →
      SpellsLines key lines → SpellsLines other otherLines →
      registry.resolve other = registry.resolve key →
      Respelling registry items names bytes →
      Respelling registry ((opcode.code :: lines) :: items)
        (some other :: names) (opcode.code :: otherLines ++ bytes)

theorem Respelling.single {registry : Registry} {item : Bytes}
    {names : List (Option TypeKey)} {bytes : Bytes}
    (respelling : Respelling registry [item] names bytes) :
    names = [none] ∧ bytes = item ∨
      ∃ opcode instruct key other lines otherLines,
        Opcode.NamesType opcode instruct ∧ SpellsLines key lines ∧
          SpellsLines other otherLines ∧
          registry.resolve other = registry.resolve key ∧
          item = opcode.code :: lines ∧ names = [some other] ∧
          bytes = opcode.code :: otherLines := by
  cases respelling with
  | keep rest =>
      cases rest
      exact .inl ⟨rfl, List.append_nil item⟩
  | rename namesType spells spellsOther same rest =>
      cases rest
      exact .inr ⟨_, _, _, _, _, _, namesType, spells, spellsOther, same, rfl,
        rfl, List.append_nil _⟩

theorem Respelling.exists_lines {registry : Registry} {code : UInt8}
    {payload : Bytes} {names : List (Option TypeKey)} {bytes : Bytes}
    (respelling : Respelling registry [code :: payload] names bytes) :
    ∃ key? lines, names = [key?] ∧ bytes = code :: lines := by
  rcases respelling.single with
    ⟨rfl, rfl⟩ | ⟨_, _, _, _, _, _, _, _, _, _, item, rfl, rfl⟩
  · exact ⟨none, payload, rfl, rfl⟩
  · rw [(List.cons.inj item).1]
    exact ⟨some _, _, rfl, rfl⟩

theorem Respelling.exists_of_append {registry : Registry}
    {first second : List Bytes} {names : List (Option TypeKey)}
    {bytes : Bytes}
    (respelling : Respelling registry (first ++ second) names bytes) :
    ∃ early late start end_, names = early ++ late ∧ bytes = start ++ end_ ∧
      early.length = first.length ∧ Respelling registry first early start ∧
      Respelling registry second late end_ := by
  induction first generalizing names bytes with
  | nil => exact ⟨[], names, [], bytes, rfl, rfl, rfl, .done, respelling⟩
  | cons item first inductionHypothesis =>
      cases respelling with
      | keep rest =>
          obtain ⟨early, late, start, end_, rfl, rfl, length, isFirst,
            isSecond⟩ := inductionHypothesis rest
          exact ⟨none :: early, late, item ++ start, end_, rfl,
            (List.append_assoc ..).symm, congrArg (· + 1) length,
            .keep isFirst, isSecond⟩
      | rename namesType spells spellsOther same rest =>
          obtain ⟨early, late, start, end_, rfl, rfl, length, isFirst,
            isSecond⟩ := inductionHypothesis rest
          exact ⟨some _ :: early, late, _ ++ start, end_, rfl,
            (List.append_assoc ..).symm, congrArg (· + 1) length,
            .rename namesType spells spellsOther same isFirst, isSecond⟩

/-! ## Readers before different bytes -/

namespace Reader

variable {rest tail : Bytes} {depth : Nat} {whole framed : Reader}

/-- The stretch of two matching readers may be what both have before them. -/
theorem Matches.shift {bytes : Bytes}
    (related : Matches (bytes ++ rest) (bytes ++ tail) none depth whole framed)
    (unread : whole.unread = bytes ++ rest) :
    Matches rest tail none depth whole framed := by
  induction related with
  | @base pending whole framed holds serves =>
      rw [holds.unread] at unread
      have nothing : pending = [] := List.append_left_eq_self.mp unread
      subst nothing
      exact .base holds serves.advance
  | nested related frames inductionHypothesis =>
      exact .nested (inductionHypothesis unread) frames

theorem Matches.beneath {more : Option Bytes}
    (related : Matches rest tail more (depth + 1) whole framed) :
    Matches rest tail more depth whole.beneath framed.beneath := by
  cases related with
  | nested below _ => exact below

/-- Two readers of which each has a line of its own before it read their lines,
with no frame in the way. -/
theorem Matches.exchange {line other : Bytes}
    (related : Matches (line ++ 0x0A :: rest) (other ++ 0x0A :: tail) none
      depth whole framed)
    (faces : whole.Faces (line ++ 0x0A :: rest))
    (noNewline : (0x0A : UInt8) ∉ line)
    (noOtherNewline : (0x0A : UInt8) ∉ other) :
    ∃ after further, whole.readLine = .ok (line ++ [0x0A]) after ∧
      framed.readLine = .ok (other ++ [0x0A]) further ∧
      after.Faces rest ∧ Matches rest tail none depth after further := by
  induction related with
  | @base pending whole framed holds serves =>
      have bytes := holds.unread.symm.trans faces.unread
      have nothing : pending = [] := List.append_left_eq_self.mp bytes
      subst nothing
      obtain ⟨after, afterHolds, read⟩ := holds.readLine noNewline
      rw [List.append_cons] at serves
      have served : Serves tail none ((other ++ [0x0A]) ++ []) framed := by
        rw [List.append_nil]
        exact serves.advance
      obtain ⟨further, readOther, stillServes⟩ :=
        served.readLine ⟨other, rfl, noOtherNewline⟩
      have stillHolds : after.Holds ([] ++ rest) := afterHolds
      exact ⟨after, further, read, readOther, afterHolds.faces,
        .base stillHolds stillServes⟩
  | @nested depth position place whole framed frame otherFrame related frames
      inductionHypothesis =>
      obtain ⟨rfl, belowFaces⟩ := faces
      have noFrame : otherFrame = none :=
        Option.map_eq_none_iff.mp frames.symm
      subst noFrame
      obtain ⟨after, further, read, readOther, afterFaces, still⟩ :=
        inductionHypothesis belowFaces
      have ends : ∀ content : Bytes,
          endsLine (content ++ [0x0A]) = true := by
        intro content
        rw [endsLine, List.getLast?_concat]
        rfl
      exact ⟨_, _,
        readLine_unframed_eq_ok_iff.mpr ⟨after, read, ends line, rfl⟩,
        readLine_unframed_eq_ok_iff.mpr ⟨further, readOther, ends other, rfl⟩,
        ⟨rfl, afterFaces⟩, .nested still rfl⟩

end Reader

/-! ## Arguments -/

namespace Instruction

variable {rules : TextRules} {opcode : Opcode}
variable {instruct : TypeKey → Instruction} {key other : TypeKey}
variable {rest tail : Bytes} {depth : Nat} {whole framed : Reader}

theorem ofOpcode_of_namesType (namesType : opcode.NamesType instruct) :
    ofOpcode rules opcode = (do
      let module ← nameLine
      let name ← nameLine
      return instruct ⟨module, name⟩) := by
  cases namesType <;> rfl

theorem nameLine_of_readLine {line : Bytes} {text : Text}
    {reader after : Reader} (spells : SpellsText line text)
    (read : reader.readLine = .ok (line ++ [0x0A]) after) (heap : Heap) :
    nameLine ⟨reader, heap⟩ = .ok text ⟨after, heap⟩ := by
  have fetched : Instruction.line ⟨reader, heap⟩ = .ok line ⟨after, heap⟩ := by
    have handed : Decoding.readLine ⟨reader, heap⟩ =
        .ok (line ++ [0x0A]) ⟨after, heap⟩ :=
      Decoding.reading_eq_ok_iff.mpr ⟨after, read, rfl⟩
    unfold Instruction.line
    rw [bind_of_eq_ok handed, List.dropLast_concat]
    rfl
  unfold nameLine
  rw [bind_of_eq_ok fetched, spells.isText]
  rfl

theorem exchange_nameLine {line otherLine : Bytes} {text otherText : Text}
    (spells : SpellsText line text) (spellsOther : SpellsText otherLine otherText)
    (related : Reader.Matches (line ++ 0x0A :: rest)
      (otherLine ++ 0x0A :: tail) none depth whole framed)
    (faces : whole.Faces (line ++ 0x0A :: rest)) :
    ∃ after further : Reader,
      (∀ heap, nameLine ⟨whole, heap⟩ = .ok text ⟨after, heap⟩) ∧
      (∀ heap, nameLine ⟨framed, heap⟩ = .ok otherText ⟨further, heap⟩) ∧
      after.Faces rest ∧
      Reader.Matches rest tail none depth after further := by
  obtain ⟨after, further, read, readOther, afterFaces, still⟩ :=
    related.exchange faces spells.noNewline spellsOther.noNewline
  exact ⟨after, further, nameLine_of_readLine spells read,
    nameLine_of_readLine spellsOther readOther, afterFaces, still⟩

/-- Where one opcode spells one type and the other one another, the instructions
name these types. -/
theorem exchange_ofOpcode (namesType : opcode.NamesType instruct)
    {lines otherLines : Bytes} (spells : SpellsLines key lines)
    (spellsOther : SpellsLines other otherLines)
    (related : Reader.Matches (lines ++ rest) (otherLines ++ tail) none depth
      whole framed)
    (faces : whole.Faces (lines ++ rest)) :
    ∃ after further : Reader,
      (∀ rules heap, ofOpcode rules opcode ⟨whole, heap⟩ =
        .ok (instruct key) ⟨after, heap⟩) ∧
      (∀ rules heap, ofOpcode rules opcode ⟨framed, heap⟩ =
        .ok (instruct other) ⟨further, heap⟩) ∧
      Reader.Matches rest tail none depth after further := by
  obtain ⟨moduleLine, nameLine, module, name, rfl⟩ := spells
  obtain ⟨otherModuleLine, otherNameLine, otherModule, otherName, rfl⟩ :=
    spellsOther
  simp only [List.append_assoc, List.cons_append, List.nil_append]
    at related faces
  obtain ⟨middle, between, read, readOther, middleFaces, related⟩ :=
    exchange_nameLine module otherModule related faces
  obtain ⟨after, further, finish, finishOther, _, related⟩ :=
    exchange_nameLine name otherName related middleFaces
  refine ⟨after, further, fun rules heap => ?_, fun rules heap => ?_, related⟩
  · rw [ofOpcode_of_namesType namesType, bind_of_eq_ok (read heap),
      bind_of_eq_ok (finish heap)]
    rfl
  · rw [ofOpcode_of_namesType namesType, bind_of_eq_ok (readOther heap),
      bind_of_eq_ok (finishOther heap)]
    rfl

theorem exists_key_of_namesType (namesType : opcode.NamesType instruct)
    {source after : Source} {instruction : Instruction}
    (success : ofOpcode rules opcode source = .ok instruction after) :
    ∃ key, instruction = instruct key := by
  rw [ofOpcode_of_namesType namesType] at success
  obtain ⟨module, middle, _, success⟩ := bind_eq_ok_iff.mp success
  obtain ⟨name, last, _, success⟩ := bind_eq_ok_iff.mp success
  cases success
  exact ⟨⟨module, name⟩, rfl⟩

end Instruction

/-! ## Effects -/

namespace Execution

variable {options : Options} {nested : Decoding Value} {key other : TypeKey}

/-- A reference under the name that an opcode gives it instead of its own. -/
theorem alloc_named {strategy : Strategy} {machine after : Machine}
    {value : Value}
    (success : decoding (Decoding.alloc
      (.typeRef ⟨key.module, key.name, strategy⟩)) machine = .ok value after)
    (origin : Origin) (place : Nat) {names : List (Option TypeKey)}
    (isOther : other = (names.getD place none).getD key) :
    decoding (Decoding.alloc
      (.typeRef ⟨other.module, other.name, strategy⟩))
        (machine.renamed (origin.naming names)) =
      .ok value (after.renamed
        ((origin.adding machine.heap (some place)).naming names)) := by
  have named : Object.typeRef ⟨other.module, other.name, strategy⟩ =
      (Object.typeRef ⟨key.module, key.name, strategy⟩).named
        ((some place).bind fun place => names.getD place none) := by
    subst isOther
    rw [Option.bind_some]
    cases names.getD place none <;> rfl
  have carried := origin.carry_adding machine.heap
    (.typeRef ⟨key.module, key.name, strategy⟩) (some place) names
  obtain ⟨source, allocated, rfl⟩ := decoding_eq_ok_iff.mp success
  rw [Decoding.alloc_eq_build] at allocated
  obtain ⟨heap, made, rfl⟩ := Decoding.build_eq_ok_iff.mp allocated
  have made : machine.heap.alloc
      (.typeRef ⟨key.module, key.name, strategy⟩) = (value, heap) :=
    Except.ok.inj made
  rw [made, ← named] at carried
  rw [Decoding.alloc_eq_build]
  exact decoding_eq_ok_iff.mpr ⟨_, Decoding.build_eq_ok_iff.mpr
    ⟨_, congrArg Except.ok carried, rfl⟩, rfl⟩

theorem pushType_eq {registry : Registry} {strategy : Strategy}
    (resolved : registry.resolve key = .ok strategy) :
    pushType registry key.module key.name =
      pushNew (.typeRef ⟨key.module, key.name, strategy⟩) := by
  have resolved : registry.resolve ⟨key.module, key.name⟩ = .ok strategy :=
    resolved
  unfold pushType
  rw [resolved]

theorem instantiateNamed_eq {registry : Registry} {strategy : Strategy}
    (resolved : registry.resolve key = .ok strategy) :
    instantiateNamed registry key.module key.name = (do
      let args ← popMark
      let type ← decoding
        (Decoding.alloc (.typeRef ⟨key.module, key.name, strategy⟩))
      let _ ← instantiate type (Call.ofArgs args)) := by
  have resolved : registry.resolve ⟨key.module, key.name⟩ = .ok strategy :=
    resolved
  unfold instantiateNamed
  rw [resolved]

variable {opcode : Opcode} {instruct : TypeKey → Instruction}
variable {machine after : Machine} {result : Option Value}

theorem exists_strategy (namesType : opcode.NamesType instruct)
    (success : execute options nested (instruct key) machine =
      .ok result after) :
    ∃ strategy, options.registry.resolve key = .ok strategy := by
  cases resolved : options.registry.resolve key with
  | ok strategy => exact ⟨strategy, rfl⟩
  | error cause =>
      have resolved : options.registry.resolve ⟨key.module, key.name⟩ =
          .error cause := resolved
      cases namesType with
      | «global» =>
          obtain ⟨_, last, pushed, _⟩ := bind_eq_ok_iff.mp success
          unfold pushType at pushed
          rw [resolved] at pushed
          cases pushed
      | inst =>
          obtain ⟨_, last, made, _⟩ := bind_eq_ok_iff.mp success
          unfold instantiateNamed at made
          rw [resolved] at made
          cases made

/-- An opcode that names a type does the same with another name of the same
strategy. What it makes is called by the other name. -/
theorem execute_named (namesType : opcode.NamesType instruct)
    (success : execute options nested (instruct key) machine =
      .ok result after) (origin : Origin) (place : Nat) :
    ∃ further : Origin, ∀ (names : List (Option TypeKey)) (other : TypeKey),
      other = (names.getD place none).getD key →
      options.registry.resolve other = options.registry.resolve key →
      execute options nested (instruct other)
          (machine.renamed (origin.naming names)) =
        .ok result (after.renamed (further.naming names)) := by
  obtain ⟨strategy, resolved⟩ := exists_strategy namesType success
  cases namesType with
  | «global» =>
      obtain ⟨_, last, pushed, finished⟩ := bind_eq_ok_iff.mp success
      cases finished
      rw [pushType_eq resolved] at pushed
      obtain ⟨type, middle, allocated, pushed⟩ := bind_eq_ok_iff.mp pushed
      cases pushed
      refine ⟨origin.adding machine.heap (some place),
        fun names other isOther same => ?_⟩
      have again := alloc_named allocated origin place isOther
      have pushedAgain : pushType options.registry other.module other.name
          (machine.renamed (origin.naming names)) = _ :=
        (congrFun (pushType_eq (same.trans resolved)) _).trans
          (bind_of_eq_ok again)
      exact bind_of_eq_ok pushedAgain
  | inst =>
      obtain ⟨_, last, made, finished⟩ := bind_eq_ok_iff.mp success
      cases finished
      rw [instantiateNamed_eq resolved] at made
      obtain ⟨args, first, popped, made⟩ := bind_eq_ok_iff.mp made
      obtain ⟨type, second, allocated, made⟩ := bind_eq_ok_iff.mp made
      obtain ⟨record, third, instantiated, made⟩ := bind_eq_ok_iff.mp made
      cases made
      obtain ⟨early, popped⟩ :=
        Transfers.popMark machine args first popped origin
      obtain ⟨further, instantiated⟩ :=
        Transfers.instantiate type (Call.ofArgs args) second record after
          instantiated (early.adding first.heap (some place))
      refine ⟨further, fun names other isOther same => ?_⟩
      have again := alloc_named allocated early place isOther
      have madeAgain : instantiateNamed options.registry other.module
          other.name (machine.renamed (origin.naming names)) =
            .ok () (after.renamed (further.naming names)) := by
        rw [instantiateNamed_eq (same.trans resolved),
          bind_of_eq_ok (popped names), bind_of_eq_ok again,
          bind_of_eq_ok (instantiated names)]
        rfl
      exact bind_of_eq_ok madeAgain

end Execution

end PickleGraph
