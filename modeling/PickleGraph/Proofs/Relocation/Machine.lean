import PickleGraph.Proofs.Framing.Machine
import PickleGraph.Proofs.Relocation.Heap
import PickleGraph.Proofs.Relocation.Payload
import PickleGraph.Proofs.Relocation.Value

/-!
# Machines over another heap

A machine does the same over another heap, on a reader that follows and with a
memo that holds other slots besides. One opcode alone can tell, the one that
numbers its slot by those before.
-/

namespace PickleGraph

open Actions

/-! ## What is pushed -/

theorem Value.IsLeaf.shifted_eq {value : Value} (isLeaf : value.IsLeaf)
    (shift : Shift) : value.shifted shift = value := by
  cases isLeaf <;> rfl

theorem Object.IsBlank.shifted_eq {object : Object}
    (isBlank : object.IsBlank) (shift : Shift) :
    object.shifted shift = object := by
  cases isBlank with
  | list => exact congrArg Object.list Array.map_empty
  | _ => rfl

/-! ## Machines -/

/-- A machine over the heap below, with as much on its stack and between its
marks. -/
structure Machine.Mirrors (related : Reader → Reader → Prop) (below : Heap)
    (areFresh : Bool) (machine other : Machine) : Prop where
  source : machine.source.Mirrors related below other.source
  stack : other.stack = machine.stack.map (Value.shifted below.shift)
  marks : other.marks =
    machine.marks.map (List.map (Value.shifted below.shift))
  memo : Memo.Mirrors below.shift areFresh machine.memo other.memo

namespace Execution

/-- Where the first action succeeds, the second one gives the changed result from
a machine that mirrors the first one. -/
abbrev Mirrors {α β : Type} (related : Reader → Reader → Prop)
    (below : Heap) (areFresh : Bool) (change : α → β)
    (first : Execution α) (second : Execution β) : Prop :=
  Actions.Mirrors (Machine.Mirrors related below areFresh) change first second

namespace Mirrors

variable {related : Reader → Reader → Prop} {below : Heap} {areFresh : Bool}
variable {α β α' β' : Type} {change : α → α'}

theorem bind {between : β → β'} {first : Execution β} {second : Execution β'}
    {next : β → Execution α} {further : β' → Execution α'}
    (mirrors : Mirrors related below areFresh between first second)
    (rest : ∀ value, Mirrors related below areFresh change (next value)
      (further (between value))) :
    Mirrors related below areFresh change (first >>= next)
      (second >>= further) :=
  Actions.Mirrors.bind mirrors rest

/-- What follows an action that has the same result. -/
theorem follow {first second : Execution β} {next : β → Execution α}
    {further : β → Execution α'}
    (mirrors : Mirrors related below areFresh id first second)
    (rest : ∀ value, Mirrors related below areFresh change (next value)
      (further value)) :
    Mirrors related below areFresh change (first >>= next)
      (second >>= further) :=
  bind mirrors rest

theorem decoding {first : Decoding α} {second : Decoding α'}
    (mirrors : Decoding.Mirrors related below change first second) :
    Mirrors related below areFresh change (Execution.decoding first)
      (Execution.decoding second) := by
  intro before other result after start success
  obtain ⟨source, decoded, rfl⟩ := decoding_eq_ok_iff.mp success
  obtain ⟨later, again, still⟩ :=
    mirrors before.source other.source result source start.source decoded
  exact ⟨_, decoding_eq_ok_iff.mpr ⟨later, again, rfl⟩,
    { start with source := still }⟩

theorem get {next : Machine → Execution α} {further : Machine → Execution α'}
    (rest : ∀ machine other,
      Machine.Mirrors related below areFresh machine other →
      Mirrors related below areFresh change (next machine) (further other)) :
    Mirrors related below areFresh change (MonadState.get >>= next)
      (MonadState.get >>= further) :=
  Actions.Mirrors.get rest

theorem heap_bind {next : Heap → Execution α} {further : Heap → Execution α'}
    (rest : ∀ heap : Heap, Mirrors related below areFresh change (next heap)
      (further (heap.atop below))) :
    Mirrors related below areFresh change (Execution.heap >>= next)
      (Execution.heap >>= further) := by
  unfold Execution.heap
  rw [bind_assoc, bind_assoc]
  refine .get fun machine other same => ?_
  have above : other.heap = machine.heap.atop below := same.source.heap
  rw [pure_bind, pure_bind, above]
  exact rest machine.heap

/-! ## The stack and the marks -/

theorem push (value : Value) :
    Mirrors related below areFresh id (Execution.push value)
      (Execution.push (value.shifted below.shift)) :=
  .update fun _ _ same =>
    { same with stack := congrArg (_ :: ·) same.stack }

theorem pushNew (object : Object) :
    Mirrors related below areFresh id (Execution.pushNew object)
      (Execution.pushNew (object.shifted below.shift)) :=
  .bind (.decoding (.alloc object)) push

theorem pop :
    Mirrors related below areFresh (Value.shifted below.shift) Execution.pop
      Execution.pop := by
  refine .get fun machine other same => ?_
  rw [same.stack]
  cases machine.stack with
  | nil => exact .throw _ _
  | cons top rest =>
      exact .bind (.set { same with stack := rfl }) fun _ => .pure top

theorem peek :
    Mirrors related below areFresh (Value.shifted below.shift) Execution.peek
      Execution.peek := by
  refine .get fun machine other same => ?_
  rw [same.stack]
  cases machine.stack with
  | nil => exact .throw _ _
  | cons top rest => exact .pure top

theorem popMany (count : Nat) :
    Mirrors related below areFresh (List.map (Value.shifted below.shift))
      (Execution.popMany count) (Execution.popMany count) := by
  refine .get fun machine other same => ?_
  rw [same.stack, List.length_map]
  split
  · exact .throw _ _
  · rw [← List.map_take, ← List.map_drop, ← List.map_reverse]
    exact .bind (.set { same with stack := rfl }) fun _ => .pure _

theorem replaceTop (value : Value) :
    Mirrors related below areFresh id (Execution.replaceTop value)
      (Execution.replaceTop (value.shifted below.shift)) :=
  .bind pop fun _ => push value

theorem mark :
    Mirrors related below areFresh id Execution.mark Execution.mark :=
  .update fun _ _ same =>
    { same with
      stack := rfl
      marks := congrArg₂ List.cons same.stack same.marks }

theorem popMark :
    Mirrors related below areFresh (List.map (Value.shifted below.shift))
      Execution.popMark Execution.popMark := by
  refine .get fun machine other same => ?_
  rw [same.marks, same.stack]
  cases machine.marks with
  | nil => exact .throw _ _
  | cons under rest =>
      rw [← List.map_reverse]
      exact .bind (.set { same with stack := rfl, marks := rfl })
        fun _ => .pure _

/-! ## The memo -/

/-- A slot that is found is found with the same value. -/
theorem memoGet (slot : Int) :
    Mirrors related below areFresh (Value.shifted below.shift)
      (Execution.memoGet slot) (Execution.memoGet slot) := by
  refine .get fun machine other same => ?_
  dsimp only
  by_cases negative : slot < 0
  · rw [if_pos negative, if_pos negative]
    refine .of_fails ?_
    dsimp only
    split
    · exact .throw _
    · exact .throw _
  · rw [if_neg negative, if_neg negative]
    cases found : machine.memo.lookup slot.toNat with
    | none =>
        refine .of_fails ?_
        dsimp only
        split
        · exact .throw _
        · exact .throw _
    | some value =>
        rw [same.memo.lookup found]
        exact .pure value

theorem memoPut (slot : Nat) :
    Mirrors related below areFresh id (Execution.memoPut slot)
      (Execution.memoPut slot) :=
  .bind peek fun value => .update fun _ _ same =>
    { same with memo := same.memo.insert slot value }

/-! ## Containers -/

theorem setObject (address : Nat) (object : Object) :
    Mirrors related below areFresh id (Execution.setObject address object)
      (Execution.setObject (address + below.shift.objects)
        (object.shifted below.shift)) := by
  refine .decoding (.update fun source other same => ?_)
  refine ⟨same.reader, ?_⟩
  dsimp only
  rw [same.heap]
  exact Heap.set_atop below source.heap address object

theorem checkHashable (heap : Heap) (items : List Value) :
    Mirrors related below areFresh id (Execution.checkHashable heap items)
      (Execution.checkHashable (heap.atop below)
        (items.map (Value.shifted below.shift))) := by
  induction items with
  | nil => exact .pure ()
  | cons item rest inductionHypothesis =>
      refine .follow ?_ fun _ => inductionHypothesis
      dsimp only
      rw [Heap.checkHashable_atop, Heap.typeName_atop]
      split
      · exact .pure ()
      · exact .throw _ _
      · exact .throw _ _

theorem checkReach (reach count : Nat) :
    Mirrors related below areFresh id (Execution.checkReach reach count)
      (Execution.checkReach reach count) := by
  unfold Execution.checkReach
  split
  · exact .pure ()
  · exact .throw _ _

theorem pairUp?_shifted (shift : Shift) (items : List Value) :
    pairUp? (items.map (Value.shifted shift)) =
      (pairUp? items).map (List.map (shiftedEntry shift)) := by
  fun_induction pairUp? items with
  | case1 => rfl
  | case2 key value rest inductionHypothesis =>
      rw [List.map_cons, List.map_cons, pairUp?, inductionHypothesis]
      cases pairUp? rest <;> rfl
  | case3 => rfl

theorem entriesOf (items : List Value) :
    Mirrors related below areFresh (List.map (shiftedEntry below.shift))
      (Execution.entriesOf items)
      (Execution.entriesOf (items.map (Value.shifted below.shift))) := by
  unfold Execution.entriesOf
  rw [pairUp?_shifted]
  cases pairUp? items with
  | none => exact .throw _ _
  | some entries =>
      refine .heap_bind fun heap => ?_
      rw [Entries.keys_shifted]
      exact .follow (checkHashable heap _) fun _ => .pure entries

/-- The object on top of the stack, with its address. -/
theorem peekObject? :
    Mirrors related below areFresh
      (Option.map fun (address, object) =>
        (address + below.shift.objects, object.shifted below.shift))
      Execution.peekObject? Execution.peekObject? := by
  refine .bind peek fun top => ?_
  cases top with
  | object address =>
      refine .heap_bind fun heap => ?_
      rw [Heap.get_atop]
      exact .pure (some (address, heap.get address))
  | tuple items =>
      rw [Value.shifted_tuple]
      exact .pure none
  | frozenset members =>
      rw [Value.shifted_frozenset]
      exact .pure none
  | _ => exact .pure none

theorem wrongTarget (opcode : Opcode) {second : Execution α'} :
    Mirrors related below areFresh change
      (Execution.wrongTarget opcode : Execution α) second :=
  .of_fails (.bind fun _ => .bind fun _ => .throw _)

theorem extendList (opcode : Opcode) (items : List Value) :
    Mirrors related below areFresh id (Execution.extendList opcode items)
      (Execution.extendList opcode
        (items.map (Value.shifted below.shift))) := by
  refine .bind peekObject? fun target => ?_
  rcases target with _ | ⟨address, object⟩
  · exact .wrongTarget opcode
  · cases object with
    | list present =>
        have extended : Object.list (present.map (Value.shifted below.shift) ++
            (items.map (Value.shifted below.shift)).toArray) =
              (Object.list (present ++ items.toArray)).shifted
                below.shift := by
          simp [Object.shifted]
        have set : Mirrors related below areFresh id _ _ :=
          setObject address (.list (present ++ items.toArray))
        rw [← extended] at set
        exact set
    | _ => exact .wrongTarget opcode

theorem extendDict (opcode : Opcode) (items : List Value) :
    Mirrors related below areFresh id (Execution.extendDict opcode items)
      (Execution.extendDict opcode
        (items.map (Value.shifted below.shift))) := by
  refine .bind peekObject? fun target => ?_
  rcases target with _ | ⟨address, object⟩
  · exact .wrongTarget opcode
  · cases object with
    | dict ordered present =>
        refine .bind (entriesOf items) fun entries => ?_
        dsimp only
        rw [Entries.reach_shifted, ← List.map_take, Entries.merge_shifted,
          List.length_map]
        exact .follow (setObject address (.dict ordered (Entries.merge present
          (entries.take (Entries.reach present entries))))) fun _ =>
            checkReach _ _
    | _ => exact .wrongTarget opcode

theorem extendSet (items : List Value) :
    Mirrors related below areFresh id (Execution.extendSet items)
      (Execution.extendSet (items.map (Value.shifted below.shift))) := by
  refine .bind peekObject? fun target => ?_
  rcases target with _ | ⟨address, object⟩
  · exact .wrongTarget .addItems
  · cases object with
    | set present =>
        refine .heap_bind fun heap => ?_
        refine .follow (checkHashable heap items) fun _ => ?_
        dsimp only
        rw [Members.reach_shifted, ← List.map_take, Members.merge_shifted,
          List.length_map]
        exact .follow (setObject address (.set (Members.merge present
          (items.take (Members.reach present items))))) fun _ =>
            checkReach _ _
    | _ => exact .wrongTarget .addItems

/-! ## Types and instances -/

theorem pushType (registry : Registry) (module name : Text) :
    Mirrors related below areFresh id
      (Execution.pushType registry module name)
      (Execution.pushType registry module name) := by
  unfold Execution.pushType
  cases registry.resolve ⟨module, name⟩ with
  | ok strategy => exact pushNew (.typeRef ⟨module, name, strategy⟩)
  | error cause => exact .throw _ _

theorem instantiate (type : Value) (call : Call) :
    Mirrors related below areFresh (Value.shifted below.shift)
      (Execution.instantiate type call)
      (Execution.instantiate (type.shifted below.shift)
        (call.shifted below.shift)) :=
  .decoding (.build fun heap => Heap.carryOver_instantiate below heap type call)

theorem argumentsOf (opcode : Opcode) (value : Value) :
    Mirrors related below areFresh (List.map (Value.shifted below.shift))
      (Execution.argumentsOf opcode value)
      (Execution.argumentsOf opcode (value.shifted below.shift)) := by
  cases value with
  | tuple args =>
      rw [Value.shifted_tuple]
      exact .pure args
  | _ => exact .throw _ _

theorem instantiateNamed (registry : Registry) (module name : Text) :
    Mirrors related below areFresh id
      (Execution.instantiateNamed registry module name)
      (Execution.instantiateNamed registry module name) := by
  unfold Execution.instantiateNamed
  cases registry.resolve ⟨module, name⟩ with
  | error cause => exact .throw _ _
  | ok strategy =>
      refine .bind popMark fun args => ?_
      refine .bind (.decoding (.alloc (.typeRef ⟨module, name, strategy⟩)))
        fun type => ?_
      exact .bind (instantiate type (Call.ofArgs args)) fun _ => .pure ()

/-! ## Buffers and the end -/

theorem showTop (view : MemoryView) :
    Mirrors related below areFresh id (protectTop.showTop view)
      (protectTop.showTop (view.shifted below.shift)) :=
  .bind (.decoding (.alloc (.view view))) replaceTop

theorem protectTop :
    Mirrors related below areFresh id Execution.protectTop
      Execution.protectTop := by
  refine .bind peek fun top => ?_
  cases top with
  | bytes content => exact .pure ()
  | object address =>
      refine .heap_bind fun heap => ?_
      rw [Heap.get_atop]
      cases heap.get address with
      | bytearray content => exact showTop ⟨address, content, _⟩
      | view content => exact .pure ()
      | array array =>
          have sameBytes : (array.shifted below.shift).bytes? =
              array.bytes? := by
            obtain ⟨type, shape, content, writable⟩ := array
            cases content <;> rfl
          simp only [Object.shifted, sameBytes]
          cases array.bytes? with
          | none => exact .wrongTarget _
          | some content =>
              have sameType : (array.shifted below.shift).type =
                  array.type := rfl
              have sameFlag : (array.shifted below.shift).writable =
                  array.writable := rfl
              dsimp only
              by_cases hides : hidesTimes array.type = true
              · rw [if_pos hides]
                exact .throw _ _
              · rw [if_neg hides, sameType, if_neg hides]
                by_cases writable : array.writable = true
                · rw [if_pos writable, sameFlag, if_pos writable]
                  exact showTop ⟨address, content, array.shape⟩
                · rw [if_neg writable, sameFlag, if_neg writable]
                  exact .pure ()
      | _ => exact .wrongTarget _
  | _ => exact .wrongTarget _

theorem finish :
    Mirrors related below areFresh (Value.shifted below.shift)
      Execution.finish Execution.finish := by
  refine .get fun machine other same => ?_
  rw [same.marks, same.stack, List.isEmpty_map, List.length_map]
  split
  · exact .throw _ _
  · split
    · exact .throw _ _
    · exact pop

end Mirrors

section Steps

variable {related : Reader → Reader → Prop} {below : Heap} {areFresh : Bool}
variable {options : Options} {nested inner : Decoding Value}

/-! ## Instructions one by one -/

/-- What the first action does the second does on top of the heap, down to the value
of a pickle that they end. -/
abbrev MirrorsResult (related : Reader → Reader → Prop) (below : Heap)
    (areFresh : Bool) (first second : Execution (Option Value)) : Prop :=
  Mirrors related below areFresh (Option.map (Value.shifted below.shift))
    first second

theorem MirrorsResult.proceed {first second : Execution Unit}
    (alike : Mirrors related below areFresh id first second) :
    MirrorsResult related below areFresh (execute.proceed first)
      (execute.proceed second) :=
  .follow alike fun _ => .pure none

theorem mirrors_dict :
    MirrorsResult related below areFresh (execute options nested .dict)
      (execute options inner .dict) := by
  refine .proceed (.bind .popMark fun items => ?_)
  refine .bind (.entriesOf items) fun entries => ?_
  have reach := Entries.reach_shifted below.shift [] entries
  rw [List.map_nil] at reach
  rw [reach, List.length_map, Entries.merge_nil_shifted]
  exact .follow (.checkReach _ _) fun _ =>
    .pushNew (.dict false (Entries.merge [] entries))

theorem mirrors_frozenSet :
    MirrorsResult related below areFresh (execute options nested .frozenSet)
      (execute options inner .frozenSet) := by
  refine .proceed (.bind .popMark fun items => ?_)
  refine .heap_bind fun heap => ?_
  refine .follow (.checkHashable heap items) fun _ => ?_
  have reach := Members.reach_shifted below.shift [] items
  rw [List.map_nil] at reach
  rw [reach, List.length_map]
  refine .follow (.checkReach _ _) fun _ => ?_
  have merged : Value.frozenset (Members.merge []
      (items.map (Value.shifted below.shift))) =
        (Value.frozenset (Members.merge [] items)).shifted
          below.shift := by
    rw [Value.shifted_frozenset, ← Members.merge_shifted]
    rfl
  rw [merged]
  exact .push _

theorem mirrors_stackGlobal :
    MirrorsResult related below areFresh (execute options nested .stackGlobal)
      (execute options inner .stackGlobal) := by
  refine .proceed (.bind .pop fun name => .bind .pop fun module => ?_)
  cases module with
  | str module =>
      cases name with
      | str name => exact .pushType options.registry module name
      | _ => exact .throw _ _
  | _ => exact .throw _ _

theorem mirrors_obj :
    MirrorsResult related below areFresh (execute options nested .obj)
      (execute options inner .obj) := by
  refine .proceed (.bind .popMark fun items => ?_)
  cases items with
  | nil => exact .throw _ _
  | cons type args =>
      exact .bind (.instantiate type (Call.ofArgs args)) .push

theorem mirrors_newObj :
    MirrorsResult related below areFresh (execute options nested .newObj)
      (execute options inner .newObj) := by
  refine .proceed (.bind .pop fun args => .bind .pop fun type => ?_)
  exact .bind (.argumentsOf _ args) fun args =>
    .bind (.instantiate type (Call.ofArgs args)) .push

theorem mirrors_newObjEx :
    MirrorsResult related below areFresh (execute options nested .newObjEx)
      (execute options inner .newObjEx) := by
  refine .proceed (.bind .pop fun named => .bind .pop fun args => ?_)
  refine .bind .pop fun type => .heap_bind fun heap => ?_
  rw [Heap.entries?_atop]
  cases args with
  | tuple args =>
      rw [Value.shifted_tuple]
      cases heap.entries? named with
      | none => exact .throw _ _
      | some named => exact .bind (.instantiate type ⟨args, named⟩) .push
  | _ => exact .throw _ _

theorem mirrors_reduce :
    MirrorsResult related below areFresh (execute options nested .reduce)
      (execute options inner .reduce) := by
  refine .proceed (.bind .pop fun args => .bind .peek fun type => ?_)
  exact .bind (.argumentsOf _ args) fun args =>
    .bind (.instantiate type (Call.ofArgs args)) .replaceTop

/-! ## States -/

theorem mirrors_applyToTop :
    Mirrors related below areFresh
      (fun (address, record) =>
        (address + below.shift.objects, record.shifted below.shift))
      applyToTop applyToTop := by
  refine .bind .pop fun state => .bind .peekObject? fun target => ?_
  rcases target with _ | ⟨address, object⟩
  · exact .wrongTarget .build
  · cases object with
    | record record =>
        refine .bind (.decoding (.query fun heap =>
          Record.applyState_atop below heap record state)) fun filled => ?_
        exact .bind (.setObject address (.record filled)) fun _ =>
          .pure (address, filled)
    | _ => exact .wrongTarget .build

variable (followed : Reader.IsFollowed related)
variable (mirrors : Decoding.Mirrors related below
  (Value.shifted below.shift) nested inner)

include followed mirrors

/-- The array takes the place of its own placeholder, also in a memo with more
slots. -/
theorem mirrors_fillPlaceholder (address : Nat) (record : Record) :
    Mirrors related below areFresh id
      (fillPlaceholder options nested address record)
      (fillPlaceholder options inner (address + below.shift.objects)
        (record.shifted below.shift)) := by
  have sameStrategy : (record.shifted below.shift).strategy =
      record.strategy := rfl
  unfold fillPlaceholder
  rw [sameStrategy]
  cases record.strategy with
  | array target layout =>
      refine .bind (.decoding
        (mirrors_materialize followed below mirrors layout record))
        fun array => ?_
      refine .follow (.replaceTop array) fun _ => ?_
      exact .update fun _ _ same =>
        { same with memo := same.memo.replace address array }
  | _ => exact .pure ()

theorem mirrors_giveState :
    Mirrors related below areFresh id (giveState options nested)
      (giveState options inner) := by
  rw [giveState_eq, giveState_eq]
  exact .bind mirrors_applyToTop fun (address, record) =>
    mirrors_fillPlaceholder followed mirrors address record

/-! ## Instructions -/

/-- An instruction that succeeds on its own succeeds on top of a heap too, with all
addresses moved behind the heap, if the pickles inside do. Only where a slot is
numbered by those before it both memos must be fresh. -/
theorem mirrors_execute {instruction : Instruction}
    (isBare : instruction.IsBare)
    (numbered : instruction = .memoize → areFresh = true) :
    MirrorsResult related below areFresh (execute options nested instruction)
      (execute options inner instruction) := by
  cases instruction with
  | stop => exact .bind .finish fun value => .pure (some value)
  | protocol version =>
      exact .proceed (.update fun _ _ same => { same with })
  | frame size =>
      exact .proceed (.decoding (.reading (followed.openFrame size)))
  | push value =>
      refine .proceed ?_
      have pushes : Mirrors related below areFresh id _ _ := .push value
      rw [isBare.shifted_eq] at pushes
      exact pushes
  | pushFloat number =>
      exact .proceed (.bind (.decoding (.make fun heap =>
        congrArg Except.ok (Heap.carryOver_float below heap number))) .push)
  | pushObject object =>
      refine .proceed ?_
      have pushes : Mirrors related below areFresh id _ _ := .pushNew object
      rw [isBare.shifted_eq] at pushes
      exact pushes
  | mark => exact .proceed .mark
  | pop =>
      refine .proceed (.get fun machine other same => ?_)
      rw [same.stack, List.isEmpty_map]
      split
      · exact .bind .popMark fun _ => .pure ()
      · exact .bind .pop fun _ => .pure ()
  | popMark => exact .proceed (.bind .popMark fun _ => .pure ())
  | dup => exact .proceed (.bind .peek .push)
  | list =>
      refine .proceed (.bind .popMark fun items => ?_)
      rw [← List.map_toArray]
      exact .pushNew (.list items.toArray)
  | dict => exact mirrors_dict
  | tuple =>
      refine .proceed (.bind .popMark fun items => ?_)
      rw [← Value.shifted_tuple]
      exact .push (.tuple items)
  | frozenSet => exact mirrors_frozenSet
  | tupleOf size =>
      refine .proceed (.bind (.popMany size) fun items => ?_)
      rw [← Value.shifted_tuple]
      exact .push (.tuple items)
  | append => exact .proceed (.bind .pop fun value => .extendList _ [value])
  | appends => exact .proceed (.bind .popMark (.extendList _))
  | setItem =>
      exact .proceed (.bind .pop fun value => .bind .pop fun key =>
        .extendDict _ [key, value])
  | setItems => exact .proceed (.bind .popMark (.extendDict _))
  | addItems => exact .proceed (.bind .popMark .extendSet)
  | get slot => exact .proceed (.bind (.memoGet slot) .push)
  | put slot =>
      refine .proceed ?_
      split
      · exact .throw _ _
      · exact .memoPut slot.toNat
  | memoize =>
      refine .proceed (.get fun machine other same => ?_)
      rw [same.memo.whole (numbered rfl), Memo.shifted, List.length_map]
      exact .memoPut machine.memo.length
  | «global» module name => exact .proceed (.pushType _ module name)
  | stackGlobal => exact mirrors_stackGlobal
  | inst module name => exact .proceed (.instantiateNamed _ module name)
  | obj => exact mirrors_obj
  | newObj => exact mirrors_newObj
  | newObjEx => exact mirrors_newObjEx
  | reduce => exact mirrors_reduce
  | build => exact .proceed (mirrors_giveState followed mirrors)
  | readonlyBuffer => exact .proceed .protectTop

/-! ## Opcodes -/

/-- Every opcode does the same, but one that numbers its slot by those before
does so in fresh memos only. -/
theorem mirrors_perform {opcode : Opcode}
    (numbered : opcode = .memoize → areFresh = true) :
    MirrorsResult related below areFresh (perform options nested opcode)
      (perform options inner opcode) := by
  intro before other result after start success
  obtain ⟨instruction, middle, last, argued, executed, rfl⟩ :=
    perform_eq_ok_iff.mp success
  obtain ⟨source, parsed, _⟩ := decoding_eq_ok_iff.mp argued
  have isBare := Instruction.isBare_ofOpcode options.rules opcode _ _ _ parsed
  have suits := Instruction.suits_ofOpcode options.rules opcode _ _ _ parsed
  have direct := Instruction.direct_ofOpcode options.rules opcode
  have argues : Mirrors related below areFresh id _ _ :=
    .decoding (direct.mirrors followed below)
  have isNumbered : instruction = .memoize → opcode = .memoize := by
    rintro rfl
    exact suits
  have executes : MirrorsResult related below areFresh
      (execute options nested instruction)
      (execute options inner instruction) :=
    mirrors_execute followed mirrors isBare
      fun isMemoize => numbered (isNumbered isMemoize)
  obtain ⟨otherMiddle, arguedAgain, met⟩ :=
    argues before other instruction middle start argued
  obtain ⟨otherLast, executedAgain, ends⟩ :=
    executes middle otherMiddle result last met executed
  refine ⟨_, perform_eq_ok_iff.mpr
    ⟨instruction, otherMiddle, otherLast, arguedAgain, executedAgain, rfl⟩, ?_⟩
  cases result with
  | none => exact { ends with }
  | some value => exact ends

omit mirrors in
theorem mirrors_readOpcode :
    Mirrors related below areFresh id readOpcode readOpcode := by
  intro before other opcode after start success
  obtain ⟨data, source, read, known, rfl⟩ := readOpcode_eq_ok_iff.mp success
  have reads : Decoding.Mirrors related below id _ _ := .read followed 1
  obtain ⟨later, readAgain, still⟩ :=
    reads before.source other.source data source start.source read
  exact ⟨_, readOpcode_eq_ok_iff.mpr ⟨data, later, readAgain, known, rfl⟩,
    { start with source := still }⟩

/-- A step with fresh memos. -/
theorem mirrors_step :
    MirrorsResult related below true (step options nested)
      (step options inner) := by
  rw [step_eq, step_eq]
  exact .follow (mirrors_readOpcode followed) fun opcode =>
    mirrors_perform followed mirrors fun _ => rfl

end Steps

/-! ## Pickles -/

section Runs

variable {below : Heap}

theorem mirrors_placed {related : Reader → Reader → Prop} {areFresh : Bool}
    {α β : Type} {change : α → β} {first : Execution α} {second : Execution β}
    (mirrors : Mirrors related below areFresh change first second) :
    Mirrors related below areFresh change (placed first) (placed second) := by
  intro before other result after start success
  obtain ⟨later, again, still⟩ :=
    mirrors before other result after start (placed_eq_ok_iff.mp success)
  exact ⟨later, placed_eq_ok_iff.mpr again, still⟩

/-- A pickle inside starts with fresh memos, whatever the memos around it. -/
theorem mirrors_inside {related : Reader → Reader → Prop}
    {first second : Execution Value}
    (mirrors : Mirrors (Reader.Above related 0) below true
      (Value.shifted below.shift) first second) :
    Decoding.Mirrors related below (Value.shifted below.shift) (inside first)
      (inside second) := by
  intro before other result after start success
  obtain ⟨machine, finished, rfl⟩ := inside_eq_ok_iff.mp success
  have starts : Machine.Mirrors (Reader.Above related 0) below true
      (.ofReader before.reader before.heap false)
      (.ofReader other.reader other.heap false) :=
    { source := ⟨.inside start.reader, start.heap⟩
      stack := rfl
      marks := rfl
      memo := .nil true fun _ => rfl }
  obtain ⟨later, again, still⟩ := mirrors _ _ result machine starts finished
  exact ⟨_, inside_eq_ok_iff.mpr ⟨later, again, rfl⟩,
    still.source.reader.beneath, still.source.heap⟩

/-- A run of a pickle on a fresh memo is done over the heap below, whatever the
number of steps that the reader there allows for. -/
theorem mirrors_run (steps : Nat) {related : Reader → Reader → Prop}
    (followed : Reader.IsFollowed related) (options : Options) :
    Mirrors related below true (Value.shifted below.shift)
      (run steps options) (runToEnd options) := by
  induction steps generalizing related options with
  | zero =>
      intro before other result after start success
      cases placed_eq_ok_iff.mp success
  | succ steps inductionHypothesis =>
      have nested : Decoding.Mirrors related below (Value.shifted below.shift)
          (inside (run steps (nestedOptions options)))
          (nestedPickle options) :=
        mirrors_inside (inductionHypothesis (Reader.Above.isFollowed followed.inFull) _)
      rw [run_succ, runToEnd_eq]
      refine .bind (mirrors_placed (mirrors_step followed nested))
        fun result => ?_
      cases result with
      | none => exact inductionHypothesis followed options
      | some value => exact .pure value

theorem mirrors_nestedPickle {related : Reader → Reader → Prop}
    (followed : Reader.IsFollowedInFull related) (options : Options) :
    Decoding.Mirrors related below (Value.shifted below.shift)
      (nestedPickle options) (nestedPickle options) :=
  mirrors_inside fun before => mirrors_run (before.size + 1)
    (Reader.Above.isFollowed followed) _ before

end Runs

end Execution

end PickleGraph
