import PickleGraph.Proofs.Heap.Object
import PickleGraph.Proofs.Machine.Batches
import PickleGraph.Proofs.Plain.Scalar

/-!
# Ways to make instances

A type is named on two lines or by two texts, and an instance of it is made of a
tuple or of the values above a mark. All of these ways come to the same instance
or to the same failure. The one that names the type above a mark comes to them
as well, but it does not leave the instance on the stack.
-/

namespace PickleGraph

open Actions

/-! ## Instances in the heap -/

namespace Heap

/-- A type under its name. -/
def refer (registry : Registry) (module name : Text) (heap : Heap) :
    Except Failure (Value × Heap) :=
  match registry.resolve ⟨module, name⟩ with
  | .ok strategy => .ok (heap.alloc (.typeRef ⟨module, name, strategy⟩))
  | .error cause => .error (.ofCause cause)

/-- An instance of the type under a name, made of values in their order. -/
def construct (registry : Registry) (module name : Text) (args : List Value)
    (heap : Heap) : Except Failure (Value × Heap) :=
  heap.refer registry module name >>= fun (type, heap) =>
    heap.instantiate type (Call.ofArgs args)

theorem exists_of_entries? {heap : Heap} {value : Value}
    {entries : List (Value × Value)}
    (isMapping : heap.entries? value = some entries) :
    ∃ address ordered, value = .object address ∧
      heap.get address = .dict ordered entries := by
  unfold entries? at isMapping
  split at isMapping
  · next address =>
      split at isMapping
      · next ordered present here =>
          cases isMapping
          exact ⟨address, ordered, rfl, here⟩
      · cases isMapping
  · cases isMapping

theorem entries?_alloc {heap : Heap} {value : Value}
    {entries : List (Value × Value)}
    (isMapping : heap.entries? value = some entries) (object : Object) :
    (heap.alloc object).2.entries? value = some entries := by
  obtain ⟨address, ordered, rfl, here⟩ := exists_of_entries? isMapping
  have kept : (heap.alloc object).2.get address = .dict ordered entries :=
    (Extends.alloc heap object).get here (by simp)
  simp only [entries?, kept]

theorem entries?_refer {heap : Heap} {registry : Registry}
    {module name : Text} {made : Value × Heap} {value : Value}
    {entries : List (Value × Value)}
    (isMapping : heap.entries? value = some entries)
    (isMade : heap.refer registry module name = .ok made) :
    made.2.entries? value = some entries := by
  unfold refer at isMade
  split at isMade
  · cases isMade
    exact entries?_alloc isMapping _
  · cases isMade

end Heap

namespace Machine

def withHeap (machine : Machine) (heap : Heap) : Machine :=
  { machine with source := { machine.source with heap } }

def withTop (machine : Machine) (value : Value) : Machine :=
  { machine with stack := value :: machine.stack }

/-- The machine with a value on top that has been made in its heap. -/
def withMade (machine : Machine) (made : Value × Heap) : Machine :=
  (machine.withHeap made.2).withTop made.1

end Machine

namespace Execution

variable {options : Options} {nested : Decoding Value}
variable {machine : Machine} {module name : Text}

/-! ## Outcomes -/

/-- How a run ends: a failure tells nothing of the machine. -/
def outcome {α : Type} :
    EStateM.Result Failure Machine α → Except Failure Machine
  | .ok _ after => .ok after
  | .error failure _ => .error failure

theorem outcome_bind {α β : Type} (action : Execution α)
    (next : Execution β) (machine : Machine) :
    outcome ((action >>= fun _ => next) machine) =
      outcome (action machine) >>= fun middle => outcome (next middle) := by
  cases ended : action machine with
  | ok result middle =>
      rw [bind_of_eq_ok ended]
      rfl
  | error failure middle =>
      rw [bind_of_eq_error ended]
      rfl

theorem executeAll_push_cons (item : Value) (rest : List Instruction)
    (machine : Machine) :
    executeAll options nested (.push item :: rest) machine =
      executeAll options nested rest (machine.withTop item) :=
  rfl

theorem pop_withTop (machine : Machine) (value : Value) :
    pop (machine.withTop value) = .ok value machine :=
  rfl

/-- The code leaves one more value, which is made in the heap, or it fails as
the making does. -/
def Makes (options : Options) (nested : Decoding Value) (machine : Machine)
    (code : List Instruction)
    (make : Heap → Except Failure (Value × Heap)) : Prop :=
  outcome (executeAll options nested code machine) =
    (make machine.heap).map machine.withMade

/-- Code that goes on with a value that has been made. -/
theorem outcome_append_of_makes {first rest : List Instruction}
    {make : Heap → Except Failure (Value × Heap)}
    {next : Value × Heap → Except Failure (Value × Heap)} {last : Machine}
    (makes : Makes options nested machine first make)
    (goesOn : ∀ made, make machine.heap = .ok made →
      outcome (executeAll options nested rest (machine.withMade made)) =
        (next made).map last.withMade) :
    outcome (executeAll options nested (first ++ rest) machine) =
      (make machine.heap >>= next).map last.withMade := by
  rw [executeAll_append, outcome_bind, makes, except_map_bind,
    except_bind_map]
  exact except_bind_congr_of_ok goesOn

/-- An instance is put in its place, if it is made. -/
theorem outcome_instantiate {use : Value → Execution Unit}
    {change : Value × Heap → Machine}
    (uses : ∀ value heap,
      outcome (use value (machine.withHeap heap)) = .ok (change (value, heap)))
    (type : Value) (call : Call) :
    outcome ((instantiate type call >>= use) machine) =
      (machine.heap.instantiate type call).map change := by
  cases isMade : machine.source.heap.instantiate type call with
  | ok made =>
      have built : Decoding.build (·.instantiate type call) machine.source =
          .ok made.1 { machine.source with heap := made.2 } :=
        Decoding.build_eq_ok_iff.mpr ⟨made.2, isMade, rfl⟩
      have run : instantiate type call machine =
          .ok made.1 (machine.withHeap made.2) :=
        decoding_eq_ok_iff.mpr ⟨_, built, rfl⟩
      rw [bind_of_eq_ok run, uses, Machine.heap, isMade]
      rfl
  | error failure =>
      have run : instantiate type call machine = .error failure machine := by
        simp only [instantiate, decoding, Decoding.build, isMade]
      rw [bind_of_eq_error run, Machine.heap, isMade]
      rfl

/-! ## Types -/

/-- The ways to name a type. -/
def references (module name : Text) : List (List Instruction) :=
  [[.global module name],
    [.push (.str module), .push (.str name), .stackGlobal]]

theorem executeAll_reference {reference : List Instruction}
    (isReference : reference ∈ references module name) (machine : Machine) :
    executeAll options nested reference machine =
      pushType options.registry module name machine := by
  rcases List.mem_pair.mp isReference with rfl | rfl
  · have single : executeAll options nested [.global module name] =
        pushType options.registry module name :=
      executeAll_proceed rfl
    rw [single]
  · have single : executeAll options nested [.stackGlobal] = _ :=
      executeAll_proceed rfl
    rw [executeAll_push_cons, executeAll_push_cons, single]
    rfl

theorem makes_reference {reference : List Instruction}
    (isReference : reference ∈ references module name) (machine : Machine) :
    Makes options nested machine reference
      (Heap.refer options.registry module name) := by
  rw [Makes, executeAll_reference isReference, pushType, Heap.refer]
  cases options.registry.resolve ⟨module, name⟩ with
  | error cause => rfl
  | ok strategy => rfl

/-! ## Instances of a type on the stack -/

section OfType

variable (machine : Machine) (type : Value) (args : List Value)

/-- The outcome of making an instance in the place of what it is made of. -/
abbrev instanceOutcome : Except Failure Machine :=
  (machine.heap.instantiate type (Call.ofArgs args)).map machine.withMade

theorem outcome_reduce :
    outcome (executeAll options nested [.push (.tuple args), .reduce]
        (machine.withTop type)) = instanceOutcome machine type args := by
  have last : executeAll options nested [.reduce] = _ :=
    executeAll_proceed rfl
  have run : executeAll options nested [.reduce]
      ((machine.withTop type).withTop (.tuple args)) =
        (instantiate type (Call.ofArgs args) >>= replaceTop)
          (machine.withTop type) := by
    rw [last]
    rfl
  rw [executeAll_push_cons, run]
  exact outcome_instantiate (fun _ _ => rfl) type (Call.ofArgs args)

theorem outcome_newObj :
    outcome (executeAll options nested [.push (.tuple args), .newObj]
        (machine.withTop type)) = instanceOutcome machine type args := by
  have last : executeAll options nested [.newObj] = _ :=
    executeAll_proceed rfl
  have run : executeAll options nested [.newObj]
      ((machine.withTop type).withTop (.tuple args)) =
        (instantiate type (Call.ofArgs args) >>= push) machine := by
    rw [last]
    rfl
  rw [executeAll_push_cons, run]
  exact outcome_instantiate (fun _ _ => rfl) type (Call.ofArgs args)

/-- An empty mapping passes nothing by name. -/
theorem outcome_newObjEx {named : Value}
    (empty : machine.heap.entries? named = some []) :
    outcome (executeAll options nested [.newObjEx]
        (((machine.withTop type).withTop (.tuple args)).withTop named)) =
      instanceOutcome machine type args := by
  have last : executeAll options nested [.newObjEx] = _ :=
    executeAll_proceed rfl
  have run : executeAll options nested [.newObjEx]
      (((machine.withTop type).withTop (.tuple args)).withTop named) =
        (instantiate type (Call.ofArgs args) >>= push) machine := by
    have looked : heap machine = .ok machine.heap machine := rfl
    rw [last, bind_of_eq_ok (pop_withTop _ named),
      bind_of_eq_ok (pop_withTop _ (.tuple args)),
      bind_of_eq_ok (pop_withTop machine type), bind_of_eq_ok looked, empty]
    rfl
  rw [run]
  exact outcome_instantiate (fun _ _ => rfl) type (Call.ofArgs args)

theorem outcome_obj :
    outcome (executeAll options nested (above (type :: args) .obj) machine) =
      instanceOutcome machine type args := by
  have run : executeAll options nested (above (type :: args) .obj) machine =
      (instantiate type (Call.ofArgs args) >>= push) machine :=
    (executeAll_above _ rfl (type :: args) machine).trans rfl
  rw [run]
  exact outcome_instantiate (fun _ _ => rfl) type (Call.ofArgs args)

end OfType

/-! ## Instances of a named type -/

/-- How an instance is made of a type and values. -/
inductive Maker
  | reduce
  | newObj
  | newObjEx (named : Value)
  | obj

namespace Maker

variable {reference : List Instruction} {args : List Value}

/-- The code of an instance after the code of its type. -/
def code (reference : List Instruction) (args : List Value) :
    Maker → List Instruction
  | reduce => reference ++ [.push (.tuple args), .reduce]
  | newObj => reference ++ [.push (.tuple args), .newObj]
  | newObjEx named => reference ++ [.push (.tuple args), .push named, .newObjEx]
  | obj => .mark :: (reference ++ (args.map .push ++ [.obj]))

/-- Nothing is passed by name. -/
def Unnamed (heap : Heap) : Maker → Prop
  | newObjEx named => heap.entries? named = some []
  | _ => True

/-- However the type is named, all makers make the same instance of it. -/
theorem makes_code (isReference : reference ∈ references module name)
    {maker : Maker} (unnamed : maker.Unnamed machine.heap) :
    Makes options nested machine (maker.code reference args)
      (Heap.construct options.registry module name args) := by
  have makes : ∀ machine, Makes options nested machine reference
      (Heap.refer options.registry module name) :=
    makes_reference isReference
  cases maker with
  | reduce =>
      exact outcome_append_of_makes (makes machine) fun made _ =>
        outcome_reduce (machine.withHeap made.2) made.1 args
  | newObj =>
      exact outcome_append_of_makes (makes machine) fun made _ =>
        outcome_newObj (machine.withHeap made.2) made.1 args
  | newObjEx named =>
      refine outcome_append_of_makes (makes machine) fun made isMade => ?_
      exact outcome_newObjEx (machine.withHeap made.2) made.1 args
        (Heap.entries?_refer unnamed isMade)
  | obj =>
      -- The type is named above the mark, with nothing else there yet.
      let marked : Machine :=
        { machine with stack := [], marks := machine.stack :: machine.marks }
      have start : executeAll options nested
          (Maker.obj.code reference args) machine =
            executeAll options nested (reference ++ (args.map .push ++ [.obj]))
              marked := rfl
      rw [Makes, start]
      exact outcome_append_of_makes (makes marked) fun made _ =>
        outcome_obj (machine.withHeap made.2) made.1 args

/-- A new mapping that is passed as the names is one more object in the heap in
which the instance is made. -/
theorem outcome_newMapping
    (isReference : reference ∈ references module name) :
    outcome (executeAll options nested
        (reference ++ [.push (.tuple args), .pushObject (.dict false []),
          .newObjEx]) machine) =
      (machine.heap.refer options.registry module name >>=
        fun (type, heap) =>
          (heap.alloc (.dict false [])).2.instantiate type
            (Call.ofArgs args)).map machine.withMade := by
  refine outcome_append_of_makes (makes_reference isReference machine)
    fun made _ => ?_
  have empty : (made.2.alloc (.dict false [])).2.entries?
      (.object made.2.objects.size) = some [] := by
    simp only [Heap.entries?, Heap.get_alloc_self]
  exact outcome_newObjEx
    (machine.withHeap (made.2.alloc (.dict false [])).2) made.1 args empty

end Maker

/-! ## Instances by name -/

/-- The instance is made in the heap, but the stack is left as it was below the
mark. -/
theorem outcome_inst (args : List Value) :
    outcome (executeAll options nested (above args (.inst module name))
        machine) =
      (machine.heap.construct options.registry module name args).map
        fun made => machine.withHeap made.2 := by
  unfold Heap.construct Heap.refer
  cases resolved : options.registry.resolve ⟨module, name⟩ with
  | error cause =>
      have refused : execute options nested (.inst module name) =
          execute.proceed (reject cause) := by
        rw [execute, instantiateNamed, resolved]
      rw [executeAll_above_eq, executeAll_proceed refused]
      rfl
  | ok strategy =>
      have isUse : execute options nested (.inst module name) =
          execute.proceed (popMark >>= fun args => do
            let type ← decoding
              (Decoding.alloc (.typeRef ⟨module, name, strategy⟩))
            let _ ← instantiate type (Call.ofArgs args)) := by
        rw [execute, instantiateNamed, resolved]
      rw [executeAll_above _ isUse]
      exact outcome_instantiate (fun _ _ => rfl) _ (Call.ofArgs args)

/-! ## Agreement -/

open Instruction Decoding in
/-- However a type is named and whatever its instance is made of, the instance
is the same, and so is the failure if there is none. The instance that is made
by name alone is not kept. -/
structure ConstructionsAgree (options : Options) (nested : Decoding Value)
    (machine : Machine) (module name : Text) (args : List Value) : Prop where
  lines : ∀ {moduleLine nameLine : Bytes},
    IsTextLine moduleLine module → IsTextLine nameLine name →
    Takes (ofOpcode options.rules .global)
        (moduleLine ++ [0x0A] ++ (nameLine ++ [0x0A])) (.global module name) ∧
      Takes (ofOpcode options.rules .inst)
        (moduleLine ++ [0x0A] ++ (nameLine ++ [0x0A])) (.inst module name)
  texts : ∀ text ∈ [module, name], ∀ {content : Bytes} {opcode : Opcode}
      {width : Nat},
    IsTextLine content text → Scalar.textWidth? opcode = some width →
    Scalar.Countable width content →
    Takes (ofOpcode options.rules opcode) (Scalar.counted width content)
      (.push (.str text))
  type : ∀ reference ∈ references module name,
    Makes options nested machine reference
      (Heap.refer options.registry module name)
  instances : ∀ reference ∈ references module name, ∀ maker : Maker,
    maker.Unnamed machine.heap →
    Makes options nested machine (maker.code reference args)
      (Heap.construct options.registry module name args)
  /-- Names that are passed as a new mapping add an object to the heap. -/
  newMapping : ∀ reference ∈ references module name,
    outcome (executeAll options nested
        (reference ++ [.push (.tuple args), .pushObject (.dict false []),
          .newObjEx]) machine) =
      (machine.heap.refer options.registry module name >>=
        fun (type, heap) =>
          (heap.alloc (.dict false [])).2.instantiate type
            (Call.ofArgs args)).map machine.withMade
  /-- The instance is in the heap, but not on the stack. -/
  byName : outcome (executeAll options nested
        (above args (.inst module name)) machine) =
      (machine.heap.construct options.registry module name args).map
        fun made => machine.withHeap made.2

theorem constructions_agree (options : Options) (nested : Decoding Value)
    (machine : Machine) (module name : Text) (args : List Value) :
    ConstructionsAgree options nested machine module name args where
  lines := by
    intro moduleLine nameLine isModule isName
    have module := Instruction.takes_textLine isModule
    have name := Instruction.takes_textLine isName
    exact ⟨module.bind (name.map (Instruction.global _)),
      module.bind (name.map (Instruction.inst _))⟩
  texts _ _ _ _ _ isLine isText countable :=
    Scalar.takes_text_of_decode isText countable
      (Utf8.decodeGeneralized_of_decode isLine.isText)
  type _ isReference := makes_reference isReference machine
  instances _ isReference _ unnamed := Maker.makes_code isReference unnamed
  newMapping _ isReference := Maker.outcome_newMapping isReference
  byName := outcome_inst args

/-- Lists are the only type. -/
def onlyLists : Options where
  registry := ⟨[(Catalog.key "builtins" "list",
    ⟨.callable "builtins.list" .list, 0⟩)]⟩

/-- A machine before any opcode. -/
def untouched : Machine :=
  Machine.ofReader (.ofBytes []) .empty false

/-- The heap of a list of one item and of its type. -/
def listHeap : Heap :=
  { Heap.empty with
    objects := #[
      .typeRef ⟨"builtins", "list", .callable "builtins.list" .list⟩,
      .list #[.int 1]] }

/-- The list is on the stack if its type is above the mark, but not if its type
is named by the opcode. -/
theorem constructions_agree_list :
    outcome (executeAll onlyLists (nestedPickle onlyLists)
        (Maker.obj.code [.global "builtins" "list"] [.tuple [.int 1]])
        untouched) = .ok (untouched.withMade (.object 1, listHeap)) ∧
      outcome (executeAll onlyLists (nestedPickle onlyLists)
        (above [.tuple [.int 1]] (.inst "builtins" "list")) untouched) =
          .ok (untouched.withHeap listHeap) := by
  have agree := constructions_agree onlyLists (nestedPickle onlyLists)
    untouched "builtins" "list" [.tuple [.int 1]]
  have made : untouched.heap.construct onlyLists.registry "builtins" "list"
      [.tuple [.int 1]] = .ok (.object 1, listHeap) := rfl
  have byType := agree.instances _ List.mem_cons_self .obj trivial
  rw [Makes, made] at byType
  exact ⟨byType, agree.byName.trans (by rw [made]; rfl)⟩

/-- A pickle of a list, whose type is above the mark. -/
def listByType : Bytes :=
  Opcode.mark.code :: Opcode.global.code ::
    (Bytes.ofString "builtins\nlist\n" ++
      [Opcode.obj.code, Opcode.stop.code])

/-- A pickle of a list, whose type is named by the opcode. -/
def listByName : Bytes :=
  Opcode.mark.code :: Opcode.inst.code ::
    (Bytes.ofString "builtins\nlist\n" ++ [Opcode.stop.code])

/-- The length of a list that has been decoded. -/
def lengthDecoded? : Except Failure (Value × Heap) → Option Nat
  | .ok (.object address, heap) =>
      match heap.get address with
      | .list items => some items.size
      | _ => none
  | _ => none

/-- How many values are left where a pickle ends, and the place of the end. -/
def depthReported? :
    Except Failure (Value × Heap) → Option (Nat × Option Nat)
  | .error (.defect (.depthAtStop depth) place) => some (depth, place)
  | _ => none

theorem eq_of_depthReported? {decoded : Except Failure (Value × Heap)}
    {depth : Nat} {place : Option Nat}
    (reported : depthReported? decoded = some (depth, place)) :
    decoded = .error (.defect (.depthAtStop depth) place) := by
  unfold depthReported? at reported
  split at reported
  · cases reported
    rfl
  · cases reported

/-- The list is lost, and nothing is left where the pickle ends. -/
theorem decode_listByName :
    lengthDecoded? (onlyLists.decode listByType) = some 0 ∧
      onlyLists.decode listByName =
        .error (.defect (.depthAtStop 0) (some 16)) := by
  have reported : depthReported? (onlyLists.decode listByName) =
      some (0, some 16) := by
    decide +kernel
  exact ⟨by decide +kernel, eq_of_depthReported? reported⟩

end Execution

end PickleGraph
