import PickleGraph.Proofs.Framing.Machine
import PickleGraph.Proofs.Objects.Item

/-!
# Registries with more names

A decode looks up the names that its input spells and nothing else of its
registry. What succeeds under a registry therefore succeeds in the same way
under every registry that knows more names, in the pickles inside too.
-/

namespace PickleGraph

open Actions

/-! ## Repeated actions -/

section Echo

variable {ε σ α β : Type}

/-- Where the first action succeeds, the second one does the same. -/
def Actions.Echoes (first second : EStateM ε σ α) : Prop :=
  ∀ before result after, first before = .ok result after →
    second before = .ok result after

namespace Actions.Echoes

theorem refl (action : EStateM ε σ α) : Echoes action action :=
  fun _ _ _ success => success

theorem of_throw (failure : ε) (second : EStateM ε σ α) :
    Echoes (throw failure) second := by
  rintro _ _ _ ⟨⟩

theorem bind {first second : EStateM ε σ α}
    {next further : α → EStateM ε σ β} (echoes : Echoes first second)
    (rest : ∀ value, Echoes (next value) (further value)) :
    Echoes (first >>= next) (second >>= further) := by
  intro before result after success
  obtain ⟨value, middle, early, late⟩ := bind_eq_ok_iff.mp success
  exact bind_eq_ok_iff.mpr ⟨value, middle, echoes _ _ _ early,
    rest value _ _ _ late⟩

end Actions.Echoes

end Echo

/-- Parallel actions do the same where the decoders of the pickles inside do. -/
theorem Decoding.Parallel.echoes {nested other : Decoding Value}
    (nestedEchoes : Echoes nested other) {α : Type}
    {first second : Decoding α}
    (parallel : Decoding.Parallel nested other first second) :
    Echoes first second := by
  induction parallel with
  | pure result => exact .refl _
  | throw failure otherFailure => exact .of_throw _ _
  | bind _ _ firstEchoes nextEchoes => exact .bind firstEchoes nextEchoes
  | tell _ nextEchoes =>
      exact .bind (.refl _) fun place => nextEchoes place place
  | read count => exact .refl _
  | readLine => exact .refl _
  | build _ => exact .refl _
  | mapFailure change otherChange _ actionEchoes =>
      intro before result after success
      exact Decoding.mapFailure_eq_ok_iff.mpr
        (actionEchoes _ _ _ (Decoding.mapFailure_eq_ok_iff.mp success))
  | onReader reader _ _ => exact .refl _
  | nested => exact nestedEchoes

/-! ## Extensions -/

/-- Every name that is bound is bound to the same strategy in the larger
registry. -/
def Registry.Extends (registry larger : Registry) : Prop :=
  ∀ key strategy, registry.resolve key = .ok strategy →
    larger.resolve key = .ok strategy

/-- Names that are added behind all others take none of them away. -/
theorem Registry.extends_append (registry : Registry) (added : Bindings) :
    registry.Extends ⟨registry.bindings ++ added⟩ := by
  intro key strategy known
  have kept : ∀ binding, registry.find? key = some binding →
      (Registry.mk (registry.bindings ++ added)).find? key =
        some binding := by
    intro binding found
    have looked : registry.bindings.lookup key = some binding := found
    show (registry.bindings ++ added).lookup key = some binding
    rw [List.lookup_append, looked]
    rfl
  unfold Registry.resolve at known ⊢
  cases found : registry.find? key with
  | none =>
      rw [found] at known
      cases known
  | some binding =>
      rw [found] at known
      rw [kept binding found]
      exact known

/-- The file of this name is found beside the stream. -/
def Options.Opens (options : Options) (name : Text) (reader : Reader) :
    Prop :=
  ∃ siblings, options.siblings? = some siblings ∧
    siblings name = .ok reader

/-- Options that know no fewer names, and find no fewer files beside the
stream. -/
structure Options.Extends (options larger : Options) : Prop where
  registry : options.registry.Extends larger.registry
  rules : larger.rules = options.rules
  names : larger.names = options.names
  opens : ∀ name reader, options.Opens name reader → larger.Opens name reader

theorem Options.Extends.nested {options larger : Options}
    (extension : options.Extends larger) :
    (Execution.nestedOptions options).Extends
      (Execution.nestedOptions larger) :=
  ⟨extension.registry, rfl, extension.names,
    fun _ _ ⟨_, noSiblings, _⟩ => nomatch noSiblings⟩

namespace Execution

theorem echoes_decoding {α : Type} {first second : Decoding α}
    (echoes : Echoes first second) :
    Echoes (decoding first) (decoding second) := by
  intro machine result after success
  obtain ⟨source, decoded, rfl⟩ := decoding_eq_ok_iff.mp success
  exact decoding_eq_ok_iff.mpr ⟨source, echoes _ _ _ decoded, rfl⟩

theorem echoes_placed {α : Type} {first second : Execution α}
    (echoes : Echoes first second) :
    Echoes (placed first) (placed second) :=
  fun machine result after success =>
    placed_eq_ok_iff.mpr
      (echoes machine result after (placed_eq_ok_iff.mp success))

theorem echoes_inside {first second : Execution Value}
    (echoes : Echoes first second) :
    Echoes (inside first) (inside second) := by
  intro source value after success
  obtain ⟨machine, finished, rfl⟩ := inside_eq_ok_iff.mp success
  exact inside_eq_ok_iff.mpr ⟨machine, echoes _ _ _ finished, rfl⟩

/-! ## Instructions -/

section Steps

variable {options larger : Options} (extension : options.Extends larger)

include extension

theorem echoes_pushType (module name : Text) :
    Echoes (pushType options.registry module name)
      (pushType larger.registry module name) := by
  unfold pushType
  cases found : options.registry.resolve ⟨module, name⟩ with
  | error cause => exact .of_throw _ _
  | ok strategy =>
      rw [extension.registry _ _ found]
      exact .refl _

theorem echoes_instantiateNamed (module name : Text) :
    Echoes (instantiateNamed options.registry module name)
      (instantiateNamed larger.registry module name) := by
  unfold instantiateNamed
  cases found : options.registry.resolve ⟨module, name⟩ with
  | error cause => exact .of_throw _ _
  | ok strategy =>
      rw [extension.registry _ _ found]
      exact .refl _

theorem echoes_readSibling (record : Record) :
    Echoes (Payload.readSibling options.names record options.siblings?)
      (Payload.readSibling larger.names record larger.siblings?) := by
  unfold Payload.readSibling
  cases (record.field "filename").text? with
  | none => exact .refl _
  | some name =>
  cases hasSiblings : options.siblings? with
  | none => exact .of_throw _ _
  | some siblings =>
      dsimp only
      cases found : siblings name with
      | error failure => exact .of_throw _ _
      | ok reader =>
          obtain ⟨others, hasOthers, foundToo⟩ :=
            extension.opens name reader ⟨siblings, hasSiblings, found⟩
          rw [hasOthers, extension.names]
          dsimp only
          rw [foundToo]
          exact .refl _

variable {nested other : Decoding Value} (nestedEchoes : Echoes nested other)

include nestedEchoes

theorem echoes_materialize (layout : ArrayLayout) (record : Record) :
    Echoes (materialize options nested layout record)
      (materialize larger other layout record) := by
  cases layout with
  | inline =>
      unfold materialize
      rw [extension.names]
      exact (Payload.parallel_readInline record).echoes nestedEchoes
  | sibling => exact echoes_readSibling extension record

theorem echoes_giveState :
    Echoes (giveState options nested) (giveState larger other) := by
  rw [giveState_eq, giveState_eq]
  refine .bind (.refl _) fun ⟨address, record⟩ => ?_
  unfold fillPlaceholder
  dsimp only
  split
  · exact .bind (echoes_decoding
      (echoes_materialize extension nestedEchoes _ _)) fun array => .refl _
  · exact .refl _

/-- Only the opcodes that name a type ask the registry, and only a state that is
given to a placeholder starts a pickle inside. -/
theorem echoes_execute (instruction : Instruction) :
    Echoes (execute options nested instruction)
      (execute larger other instruction) := by
  cases instruction with
  | global module name =>
      exact .bind (echoes_pushType extension module name) fun _ => .refl _
  | stackGlobal =>
      refine .bind (.bind (.refl _) fun name => .bind (.refl _)
        fun module => ?_) fun _ => .refl _
      split
      · exact echoes_pushType extension _ _
      · exact .refl _
  | inst module name =>
      exact .bind (echoes_instantiateNamed extension module name)
        fun _ => .refl _
  | build =>
      exact .bind (echoes_giveState extension nestedEchoes) fun _ => .refl _
  | _ => exact .refl _

theorem echoes_step :
    Echoes (step options nested) (step larger other) := by
  rw [step_eq, step_eq]
  refine .bind (.refl _) fun opcode => ?_
  unfold perform
  rw [extension.rules]
  refine .bind (.refl _) fun instruction => ?_
  exact .bind (echoes_execute extension nestedEchoes instruction)
    fun result => .refl _

end Steps

/-! ## Runs -/

theorem echoes_run (steps : Nat) {options larger : Options}
    (extension : options.Extends larger) :
    Echoes (run steps options) (run steps larger) := by
  induction steps generalizing options larger with
  | zero => exact .refl _
  | succ steps inductionHypothesis =>
      rw [run_succ, run_succ]
      refine .bind (echoes_placed (echoes_step extension
        (echoes_inside (inductionHypothesis extension.nested))))
        fun result => ?_
      cases result with
      | some value => exact .refl _
      | none => exact inductionHypothesis extension

theorem echoes_load {options larger : Options}
    (extension : options.Extends larger) :
    Echoes (Machine.load options) (Machine.load larger) :=
  .bind (.refl _) fun _ => .bind (.refl _) fun _ =>
    echoes_run _ extension

theorem decodeReader_of_wider {options larger : Options}
    (wider : options.Extends larger) (reader : Reader)
    {value : Value} {heap : Heap}
    (decoded : options.decodeReader reader = .ok (value, heap)) :
    larger.decodeReader reader = .ok (value, heap) := by
  have loads := echoes_load wider (Machine.ofReader reader .empty false)
  unfold Options.decodeReader at decoded ⊢
  cases loaded : Machine.load options (.ofReader reader .empty false) with
  | error failure after =>
      rw [loaded] at decoded
      cases decoded
  | ok result after =>
      rw [loaded] at decoded
      rw [loads result after loaded]
      exact decoded

/-- What is decoded under a registry is decoded, to the same value in the same
heap, under every registry that binds its names as it does. -/
theorem decodeReader_of_extends (options : Options) {larger : Registry}
    (extension : options.registry.Extends larger) (reader : Reader)
    {value : Value} {heap : Heap}
    (decoded : options.decodeReader reader = .ok (value, heap)) :
    { options with registry := larger }.decodeReader reader =
      .ok (value, heap) := by
  have wider : options.Extends { options with registry := larger } :=
    ⟨extension, rfl, rfl, fun _ _ opens => opens⟩
  exact decodeReader_of_wider wider reader decoded

/-- The types of arrays and one type more. -/
def moreTypes : Registry :=
  ⟨Objects.keepingOctets.registry.bindings ++
    [(Catalog.key "m" "n", ⟨.generic "m.n" .plain, 2⟩)]⟩

/-- An array with an array of one letter in it is decoded to the same array
when one type more is known. -/
theorem decodeReader_of_extends_moreTypes :
    Objects.keepingOctets.registry.Extends moreTypes ∧
      ∃ value heap,
        Objects.keepingOctets.decodeReader (.ofBytes
            (Objects.arrayCode 1 (Objects.arrayCode 1 Objects.letterCode) ++
              [Opcode.stop.code])) = .ok (value, heap) ∧
          (heap.array? value).isSome ∧
          { Objects.keepingOctets with registry := moreTypes }.decodeReader
              (.ofBytes
                (Objects.arrayCode 1
                    (Objects.arrayCode 1 Objects.letterCode) ++
                  [Opcode.stop.code])) = .ok (value, heap) := by
  have extension : Objects.keepingOctets.registry.Extends moreTypes :=
    Registry.extends_append _ _
  have encodes : Objects.Encodes [.array [.text [0x61]]]
      (Objects.arrayCode 1 Objects.letterCode) :=
    List.append_nil (Objects.arrayCode 1 Objects.letterCode) ▸
      .array (by decide) Objects.encodes_letter .nil
  obtain ⟨value, heap, values, decoded, isArray, _⟩ :=
    Objects.decode_array Objects.bindsArrays_keepingOctets (by decide) encodes
      (.array Objects.areAscii_letter .nil) []
  refine ⟨extension, value, heap, decoded, ?_, ?_⟩
  · rw [isArray]
    rfl
  · exact decodeReader_of_extends _ extension _ decoded

end Execution

end PickleGraph
