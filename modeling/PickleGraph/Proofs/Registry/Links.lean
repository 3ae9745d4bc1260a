import PickleGraph.Proofs.Registry.Relink

/-!
# Names that are linked

Names are linked if they are bound to one object. An alias links them, and they
stay linked in every registry that is built later, until one of them is bound
anew. To register an equal strategy under one of them is such a binding.
-/

namespace PickleGraph

open Actions

namespace Workshop

variable {workshop : Workshop} {existing object : Binding}

/-! ## Descent -/

/-- The names of a registry that go back, over later operations, to some names
of a builder. -/
def heirs (workshop : Workshop) (builder : Nat) (names : List TypeKey)
    (later : List Operation) (registry : Nat) : List TypeKey :=
  (workshop.after later).registries[registry]?.elim []
    ((Lineage.ofBuilder workshop builder names).through workshop later)

/-- The names of a lineage in a registry that was made by then. -/
theorem heirs_of_registry {builder : Nat} {names : List TypeKey}
    {later : List Operation} {number place : Nat}
    (owns : (workshop.after later).registries[number]? = some place) :
    workshop.heirs builder names later number =
      (Lineage.ofBuilder workshop builder names).through workshop later
        place := by
  unfold heirs
  rw [owns]
  rfl

theorem traces_ofBuilder {builder : Nat} {table : Bindings}
    (here : workshop.builderAt? builder = some table) {names : List TypeKey}
    (holds : ∀ name ∈ names, table.find? name = some existing) :
    workshop.Traces (.ofBuilder workshop builder names) existing := by
  obtain ⟨place, owns, rfl⟩ := owns_of_builderAt? here
  unfold Lineage.ofBuilder
  rw [owns]
  intro other name member
  dsimp only [Option.elim_some, Lineage.only] at member
  split at member
  · next isHere =>
      subst isHere
      exact holds name member
  · cases member

theorem relink_nobody (workshop : Workshop) (object : Binding) :
    workshop.relink .nobody object = workshop := by
  have tables : (workshop.tables.mapIdx fun _ table =>
      table.relink [] object) = workshop.tables := by
    simp only [Bindings.relink_nil]
    exact List.mapIdx_eq_iff.mpr fun _ => by simp
  exact congrArg (Workshop.mk · workshop.builders workshop.registries) tables

/-- To bind a name to the object that it is bound to has no effect. -/
theorem written_of_find? {place : Nat} {key : TypeKey}
    (bound : (workshop.table place).find? key = some object) :
    workshop.written place key object = workshop := by
  have tables : workshop.tables.modify place (·.bind key object) =
      workshop.tables := by
    refine List.ext_getElem? fun other => ?_
    rw [List.getElem?_modify]
    cases found : workshop.tables[other]? with
    | none => rfl
    | some table =>
        by_cases here : place = other
        · subst here
          have isTable : workshop.table place = table := by
            unfold Workshop.table
            rw [List.getD_eq_getElem?_getD, found]
            rfl
          rw [isTable] at bound
          simp [Bindings.bind_of_find? bound]
        · simp [here]
  unfold written
  rw [tables]

/-- A registration with an equal strategy puts its object in the place of the
old one. -/
theorem register_again_eq (apart : workshop.IsApart) {builder : Nat}
    {key : TypeKey} {table : Bindings}
    (here : workshop.builderAt? builder = some table)
    (bound : table.find? key = some existing)
    (equal : object.strategy = existing.strategy) :
    (Operation.register builder key object).perform workshop =
      .ok ()
        (workshop.relink (.ofBuilder workshop builder [key]) object) := by
  obtain ⟨place, owns, rfl⟩ := owns_of_builderAt? here
  have agree : ∀ name, name ≠ key →
      (name ∈ [key] ↔ name ∈ Lineage.nobody place) :=
    fun name other => by simp [Lineage.nobody, other]
  have written := relink_written apart agree object existing
  rw [relink_nobody, written_of_find? bound,
    if_pos (List.mem_singleton_self key)] at written
  dsimp only [Operation.perform, onBuilder, Lineage.ofBuilder]
  rw [get_bind, owns]
  dsimp only
  rw [register_eq, Bindings.enter_eq, bound]
  dsimp only
  rw [if_pos equal.symm]
  dsimp only
  rw [written]
  rfl

end Workshop

/-! ## Answers -/

namespace Registry

def relink (registry : Registry) (names : List TypeKey) (object : Binding) :
    Registry :=
  ⟨registry.bindings.relink names object⟩

variable {registry : Registry} {names : List TypeKey}
variable {existing object : Binding}

theorem find?_relink (registry : Registry) (names : List TypeKey)
    (object : Binding) (key : TypeKey) :
    (registry.relink names object).find? key =
      (registry.find? key).map fun binding =>
        if key ∈ names then object else binding :=
  Bindings.find?_relink registry.bindings names object key

/-- Two registries that can be told apart by the identities of their strategies
at most. -/
structure Resembles (registry other : Registry) : Prop where
  resolve : ∀ key, other.resolve key = registry.resolve key
  contains : ∀ key, other.contains key = registry.contains key
  size : other.size = registry.size
  keys : other.keys = registry.keys
  items : other.items = registry.items

theorem resembles_relink
    (holds : ∀ name ∈ names, registry.find? name = some existing)
    (keyed : registry.bindings.IsKeyed)
    (equal : object.strategy = existing.strategy) :
    registry.Resembles (registry.relink names object) := by
  have sameStrategy : ∀ key binding, registry.find? key = some binding →
      (if key ∈ names then object else binding).strategy =
        binding.strategy := by
    intro key binding found
    split
    · next member =>
        cases (holds key member).symm.trans found
        exact equal
    · rfl
  refine ⟨fun key => ?_, fun key => ?_, ?_, ?_, ?_⟩
  · unfold resolve
    rw [find?_relink]
    cases found : registry.find? key with
    | none => rfl
    | some binding =>
        exact congrArg Except.ok (sameStrategy key binding found)
  · unfold contains
    rw [find?_relink, Option.isSome_map]
  · exact List.length_map _
  · exact Bindings.keys_relink registry.bindings names object
  · unfold items relink Bindings.relink
    rw [List.map_map]
    refine List.map_congr_left fun entry member => ?_
    exact congrArg (entry.1, ·) (sameStrategy entry.1 entry.2
      (Bindings.find?_of_mem keyed member))

theorem sameStrategy_of_find? {first second : TypeKey} {left right : Binding}
    (firstFound : registry.find? first = some left)
    (secondFound : registry.find? second = some right) :
    registry.sameStrategy first second =
      .ok (left.identity == right.identity) := by
  unfold sameStrategy
  rw [firstFound, secondFound]

end Registry

namespace Workshop

/-- A workshop as operations leave it. -/
def IsReached (workshop : Workshop) : Prop :=
  ∃ history, empty.after history = workshop

theorem IsReached.isApart {workshop : Workshop}
    (reached : workshop.IsReached) : workshop.IsApart := by
  obtain ⟨history, rfl⟩ := reached
  exact isApart_after history

/-- A name that has come to share a strategy is bound to the same object. -/
theorem traces_of_share {workshop : Workshop} (apart : workshop.IsApart)
    {builder : Nat} {table : Bindings}
    (here : workshop.builderAt? builder = some table) {key target : TypeKey}
    {joined : Workshop}
    (success :
      (Operation.share builder key target).perform workshop =
        .ok () joined) :
    ∃ object,
      joined.Traces (.ofBuilder joined builder [key, target]) object := by
  obtain ⟨place, owns, rfl⟩ := owns_of_builderAt? here
  have shared : share place key target workshop = .ok () joined := by
    dsimp only [Operation.perform, onBuilder] at success
    rw [get_bind, owns] at success
    exact success
  unfold share at shared
  rw [get_bind] at shared
  cases found : (workshop.table place).find? target with
  | none =>
      rw [found] at shared
      cases shared
  | some object =>
      rw [found] at shared
      dsimp only at shared
      rw [register_eq] at shared
      split at shared
      · cases shared
        have grown : (workshop.written place key object).builderAt? builder =
            some ((workshop.table place).bind key object) := by
          have stillOwns :
              (workshop.written place key object).builders[builder]? =
                some place :=
            owns
          unfold builderAt?
          rw [stillOwns, Option.map_some,
            table_written (apart.lt_of_builder owns), if_pos rfl]
        refine ⟨object, traces_ofBuilder grown fun name member => ?_⟩
        rw [Bindings.find?_bind]
        split
        · rfl
        · next other =>
            have isTarget : name = target := by
              simpa [other] using member
            rw [isTarget, found]
      · cases shared

theorem registryAt?_of_traces {workshop : Workshop} {lineage : Lineage}
    {existing : Binding} (traces : workshop.Traces lineage existing)
    {number : Nat} {registry : Registry}
    (made : workshop.registryAt? number = some registry) :
    ∃ place, workshop.registries[number]? = some place ∧
      registry = ⟨workshop.table place⟩ ∧
      ∀ name ∈ lineage place, registry.find? name = some existing := by
  unfold registryAt? at made
  cases owns : workshop.registries[number]? with
  | none =>
      rw [owns] at made
      cases made
  | some place =>
      rw [owns] at made
      cases made
      exact ⟨place, rfl, rfl, traces place⟩

theorem registryAt?_relink (workshop : Workshop) (lineage : Lineage)
    (object : Binding) (number : Nat) :
    (workshop.relink lineage object).registryAt? number =
      (workshop.registryAt? number).map
        (·.relink (workshop.registries[number]?.elim [] lineage) object) := by
  have same : (workshop.relink lineage object).registries =
      workshop.registries :=
    rfl
  unfold registryAt?
  rw [same]
  cases workshop.registries[number]? with
  | none => rfl
  | some place =>
      exact congrArg (fun table => some (Registry.mk table))
        (table_relink workshop lineage object place)

/-- Names that are joined stay so in every registry, as long as neither of them
is bound anew. A registration of an equal strategy is such a binding: it is
accepted, and all later operations are accepted or rejected as without it, but
the names that go back to this one have the new object and no longer share their
strategy with the other names of the old one. The registries are the same
otherwise. -/
theorem links_of_names {workshop : Workshop} (reached : workshop.IsReached)
    {builder : Nat} {table : Bindings}
    (here : workshop.builderAt? builder = some table) (key : TypeKey)
    (later : List Operation) :
    (∀ target joined,
      (Operation.share builder key target).perform workshop =
          .ok () joined →
        ∀ number registry,
          (joined.after later).registryAt? number = some registry →
            ∀ first ∈ joined.heirs builder [key, target] later number,
              ∀ second ∈ joined.heirs builder [key, target] later number,
                registry.sameStrategy first second = .ok true) ∧
      ∀ existing object, table.find? key = some existing →
        object.strategy = existing.strategy →
        ∃ again,
          (Operation.register builder key object).perform workshop =
              .ok () again ∧
            again.faults later = workshop.faults later ∧
            (∀ number, (again.after later).registryAt? number =
              ((workshop.after later).registryAt? number).map
                (·.relink (workshop.heirs builder [key] later number)
                  object)) ∧
            ∀ number registry,
              (workshop.after later).registryAt? number = some registry →
                registry.Resembles (registry.relink
                  (workshop.heirs builder [key] later number) object) ∧
                ∀ heir ∈ workshop.heirs builder [key] later number,
                  ∀ other ∉ workshop.heirs builder [key] later number,
                    registry.find? other = some existing →
                      object.identity ≠ existing.identity →
                      registry.sameStrategy heir other = .ok true ∧
                        (registry.relink
                            (workshop.heirs builder [key] later number)
                            object).sameStrategy heir other = .ok false := by
  have apart := reached.isApart
  refine ⟨fun target joined success number registry made first isFirst second
    isSecond => ?_, fun existing object bound equal => ?_⟩
  · obtain ⟨object, traces⟩ := traces_of_share apart here success
    have joinedApart : joined.IsApart := by
      have next := (apart.next (.share builder key target)).1
      unfold Operation.next at next
      rwa [success] at next
    obtain ⟨_, _, traced⟩ := after_relink joinedApart traces rfl later
    obtain ⟨place, owns, _, holds⟩ := registryAt?_of_traces traced made
    rw [heirs_of_registry owns] at isFirst isSecond
    rw [registry.sameStrategy_of_find? (holds first isFirst)
      (holds second isSecond), beq_self_eq_true]
  · have traces : workshop.Traces (.ofBuilder workshop builder [key])
        existing :=
      traces_ofBuilder here fun name member =>
        List.mem_singleton.mp member ▸ bound
    obtain ⟨faults, relinked, traced⟩ :=
      after_relink apart traces equal later
    refine ⟨_, register_again_eq apart here bound equal, faults,
      fun number => ?_, fun number registry made => ?_⟩
    · rw [relinked, registryAt?_relink]
      rfl
    · obtain ⟨place, owns, isTable, holds⟩ := registryAt?_of_traces traced made
      rw [heirs_of_registry owns]
      have keyed : registry.bindings.IsKeyed := by
        rw [isTable]
        exact (apart.after later).1.isKeyed place
      refine ⟨registry.resembles_relink holds keyed equal,
        fun heir isHeir other notHeir sharing different => ⟨?_, ?_⟩⟩
      · rw [registry.sameStrategy_of_find? (holds heir isHeir) sharing,
          beq_self_eq_true]
      · have foundIn := registry.find?_relink
          ((Lineage.ofBuilder workshop builder [key]).through workshop later
            place) object
        have heirFound := foundIn heir
        have otherFound := foundIn other
        rw [holds heir isHeir, Option.map_some, if_pos isHeir] at heirFound
        rw [sharing, Option.map_some, if_neg notHeir] at otherFound
        rw [Registry.sameStrategy_of_find? heirFound otherFound,
          beq_eq_false_iff_ne.mpr different]

/-- A builder that has bound `p.A` and has joined `p.B` to it. -/
def joining : List Operation :=
  [.start, .register 0 ⟨[0x70], [0x41]⟩ ⟨.generic [0x74] .plain, 0⟩,
    .share 0 ⟨[0x70], [0x42]⟩ ⟨[0x70], [0x41]⟩]

/-- A registration of `p.A` with an equal strategy. -/
def registeringAgain : Operation :=
  .register 0 ⟨[0x70], [0x41]⟩ ⟨.generic [0x74] .plain, 1⟩

/-- The registration is accepted, and the names are no longer joined. -/
theorem unlinked_joining :
    registeringAgain.fault? (empty.after joining) = none ∧
      ∃ plain again,
        ((empty.after joining).after [.build 0]).registryAt? 0 =
            some plain ∧
          plain.sameStrategy ⟨[0x70], [0x41]⟩ ⟨[0x70], [0x42]⟩ = .ok true ∧
          ((empty.after joining).after
            [registeringAgain, .build 0]).registryAt? 0 = some again ∧
          again.sameStrategy ⟨[0x70], [0x41]⟩ ⟨[0x70], [0x42]⟩ =
            .ok false :=
  ⟨rfl, _, _, rfl, rfl, rfl, rfl⟩

/-- What is true of all registrations, of this one. -/
theorem links_of_names_joining :
    (empty.after joining).IsReached ∧
      ∃ table existing,
        (empty.after joining).builderAt? 0 = some table ∧
          table.find? ⟨[0x70], [0x41]⟩ = some existing ∧
          ∃ again,
            registeringAgain.perform (empty.after joining) =
                .ok () again ∧
              (again.after [.build 0]).registryAt? 0 =
                (((empty.after joining).after [.build 0]).registryAt? 0).map
                  (·.relink [⟨[0x70], [0x41]⟩]
                    ⟨.generic [0x74] .plain, 1⟩) := by
  have reached : (empty.after joining).IsReached := ⟨joining, rfl⟩
  have here : (empty.after joining).builderAt? 0 = some _ := rfl
  have general := links_of_names reached here ⟨[0x70], [0x41]⟩ [.build 0]
  obtain ⟨again, accepted, _, registries, _⟩ :=
    general.2 _ ⟨.generic [0x74] .plain, 1⟩ rfl rfl
  exact ⟨reached, _, _, here, rfl, again, accepted, registries 0⟩

end Workshop

end PickleGraph
