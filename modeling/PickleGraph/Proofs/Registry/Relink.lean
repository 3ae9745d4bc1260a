import PickleGraph.Proofs.Registry.History

/-!
# An object in the place of an equal one

If the object that some names are bound to is replaced by one with an equal
strategy, then every later operation is accepted or rejected as before and does
the same, but for the object. Who has it is followed from table to table: names
come to share it and are bound anew, and tables are copied.
-/

namespace PickleGraph

open Actions

/-! ## Another object -/

namespace Bindings

/-- The table with another object under some names. -/
def relink (table : Bindings) (names : List TypeKey) (object : Binding) :
    Bindings :=
  table.map fun (key, binding) =>
    (key, if key ∈ names then object else binding)

variable {table : Bindings} {names : List TypeKey} {object : Binding}

theorem find?_relink (table : Bindings) (names : List TypeKey)
    (object : Binding) (key : TypeKey) :
    (table.relink names object).find? key =
      (table.find? key).map fun binding =>
        if key ∈ names then object else binding := by
  induction table with
  | nil => rfl
  | cons entry table inductionHypothesis =>
      obtain ⟨bound, existing⟩ := entry
      have unfolded : relink ((bound, existing) :: table) names object =
          (bound, if bound ∈ names then object else existing) ::
            relink table names object :=
        rfl
      rw [unfolded, find?_cons, find?_cons, inductionHypothesis]
      by_cases same : key = bound
      · subst same
        rw [if_pos rfl, if_pos rfl]
        rfl
      · rw [if_neg same, if_neg same]

theorem relink_nil (table : Bindings) (object : Binding) :
    table.relink [] object = table :=
  List.map_id'' (fun _ => rfl) table

/-- What is bound to a name already can be bound to it without any effect. -/
theorem bind_of_find? {key : TypeKey}
    (found : table.find? key = some object) :
    table.bind key object = table := by
  induction table with
  | nil => cases found
  | cons entry table inductionHypothesis =>
      obtain ⟨bound, existing⟩ := entry
      rw [find?_cons] at found
      unfold bind
      by_cases same : bound = key
      · rw [if_pos same.symm] at found
        cases found
        rw [if_pos same]
      · rw [if_neg (Ne.symm same)] at found
        rw [if_neg same, inductionHypothesis found]

theorem find?_of_mem (keyed : table.IsKeyed) {key : TypeKey}
    (member : (key, object) ∈ table) : table.find? key = some object := by
  induction table with
  | nil => cases member
  | cons entry table inductionHypothesis =>
      obtain ⟨bound, existing⟩ := entry
      obtain ⟨new, keyed⟩ := List.nodup_cons.mp keyed
      rw [find?_cons]
      rcases List.mem_cons.mp member with isFirst | later
      · cases isFirst
        exact if_pos rfl
      · have different : key ≠ bound := by
          rintro rfl
          exact new (List.mem_map.mpr ⟨_, later, rfl⟩)
        rw [if_neg different]
        exact inductionHypothesis keyed later

theorem keys_relink (table : Bindings) (names : List TypeKey)
    (object : Binding) :
    (table.relink names object).map (·.1) = table.map (·.1) := by
  unfold relink
  rw [List.map_map]
  rfl

theorem relink_congr {others : List TypeKey}
    (agree : ∀ name ∈ table.map (·.1), name ∈ others ↔ name ∈ names)
    (object : Binding) :
    table.relink names object = table.relink others object := by
  refine List.map_congr_left fun entry member => ?_
  have same := agree entry.1 (List.mem_map_of_mem member)
  simp only [same]

/-- One more name is bound, and others have the object from then on. -/
structure Passes (names others : List TypeKey) (key : TypeKey)
    (binding existing : Binding) : Prop where
  agree : ∀ name, name ≠ key → (name ∈ others ↔ name ∈ names)
  alike : key ∈ others → binding = existing

/-- A name that is bound anew has the object no more. -/
theorem passes_anew (names : List TypeKey) (key : TypeKey)
    (binding existing : Binding) :
    Passes names (names.filter (· ≠ key)) key binding existing where
  agree name other := by simp [other]
  alike member := by simp at member

/-- A name that comes to share the object is one more that has it. -/
theorem passes_share {names : List TypeKey} {target : TypeKey}
    {binding existing : Binding} (key : TypeKey)
    (same : target ∈ names → binding = existing) :
    Passes names
      (if target ∈ names then key :: names else names.filter (· ≠ key)) key
      binding existing := by
  split
  · next has => exact ⟨fun name other => by simp [other], fun _ => same has⟩
  · exact passes_anew names key binding existing

/-- What is bound next may be the object, too. -/
theorem bind_relink (keyed : table.IsKeyed) {others : List TypeKey}
    {key : TypeKey}
    (agree : ∀ name, name ≠ key → (name ∈ others ↔ name ∈ names))
    (object binding : Binding) :
    bind key (if key ∈ others then object else binding)
        (table.relink names object) =
      (table.bind key binding).relink others object := by
  induction table with
  | nil => rfl
  | cons entry table inductionHypothesis =>
      obtain ⟨bound, existing⟩ := entry
      obtain ⟨new, keyed⟩ := List.nodup_cons.mp keyed
      have unfolded : relink ((bound, existing) :: table) names object =
          (bound, if bound ∈ names then object else existing) ::
            relink table names object :=
        rfl
      rw [unfolded]
      unfold bind
      by_cases same : bound = key
      · subst same
        have rest : relink table names object =
            relink table others object :=
          relink_congr (fun name member => agree name
            (fun isBound => new (isBound ▸ member))) object
        rw [if_pos rfl, if_pos rfl, rest]
        rfl
      · rw [if_neg same, if_neg same, inductionHypothesis keyed]
        show _ = (bound, if bound ∈ others then object else existing) ::
          relink (bind key binding table) others object
        simp only [agree bound same]

/-- A registration is accepted or rejected alike where an object has taken the
place of an equal one. -/
theorem enter_relink (keyed : table.IsKeyed) {others : List TypeKey}
    {key : TypeKey} {existing object binding : Binding}
    (equal : object.strategy = existing.strategy)
    (holds : ∀ name ∈ names, table.find? name = some existing)
    (passes : Passes names others key binding existing) :
    enter (table.relink names object) key
        (if key ∈ others then object else binding) =
      (table.enter key binding).map (·.relink others object) := by
  have sameStrategy : (if key ∈ others then object else binding).strategy =
      binding.strategy := by
    split
    · next member => rw [passes.alike member, equal]
    · rfl
  rw [enter_eq, enter_eq, find?_relink, bind_relink keyed passes.agree,
    sameStrategy]
  cases found : table.find? key with
  | none => rfl
  | some bound =>
      have alsoSame : (if key ∈ names then object else bound).strategy =
          bound.strategy := by
        split
        · next member =>
            cases (holds key member).symm.trans found
            exact equal
        · rfl
      dsimp only [Option.map_some]
      rw [alsoSame]
      split <;> rfl

end Bindings

/-! ## Who has the object -/

/-- For every table, by its place, the names that are bound to the object that
is followed. -/
abbrev Lineage := Nat → List TypeKey

namespace Lineage

def nobody : Lineage := fun _ => []

/-- Only these names of one table. -/
def only (place : Nat) (names : List TypeKey) : Lineage :=
  fun other => if other = place then names else []

/-- Some names of a builder. -/
def ofBuilder (workshop : Workshop) (builder : Nat)
    (names : List TypeKey) : Lineage :=
  workshop.builders[builder]?.elim nobody (only · names)

def set (lineage : Lineage) (place : Nat) (names : List TypeKey) : Lineage :=
  fun other => if other = place then names else lineage other

theorem set_self (lineage : Lineage) (place : Nat)
    (names : List TypeKey) : lineage.set place names place = names :=
  if_pos rfl

theorem set_of_ne {place other : Nat} (different : other ≠ place)
    (lineage : Lineage) (names : List TypeKey) :
    lineage.set place names other = lineage other :=
  if_neg different

/-- A name that is bound anew has the object no more, unless it shares the
strategy of a name that has it. Copies have what was copied. -/
def after (lineage : Lineage) (workshop : Workshop) :
    Operation → Lineage
  | .start => lineage.set workshop.tables.length []
  | .register builder key _ =>
      workshop.builders[builder]?.elim lineage fun place =>
        lineage.set place ((lineage place).filter (· ≠ key))
  | .share builder key target =>
      workshop.builders[builder]?.elim lineage fun place =>
        lineage.set place
          (if target ∈ lineage place then key :: lineage place
          else (lineage place).filter (· ≠ key))
  | .build builder =>
      workshop.builders[builder]?.elim lineage fun place =>
        lineage.set workshop.tables.length (lineage place)
  | .extend registry =>
      workshop.registries[registry]?.elim lineage fun place =>
        lineage.set workshop.tables.length (lineage place)

/-- The names that have the object after all operations; a rejected one does
nothing. -/
def through (lineage : Lineage) (workshop : Workshop) :
    List Operation → Lineage
  | [] => lineage
  | operation :: rest =>
      through
        (if (operation.fault? workshop).isNone then
          lineage.after workshop operation
        else lineage)
        (operation.next workshop) rest

end Lineage

namespace Workshop

variable {workshop : Workshop} {lineage : Lineage}
variable {existing object : Binding}

/-- The names of a lineage are bound to one object. -/
def Traces (workshop : Workshop) (lineage : Lineage) (object : Binding) :
    Prop :=
  ∀ place, ∀ name ∈ lineage place,
    (workshop.table place).find? name = some object

/-- The workshop with another object under the names of a lineage. -/
def relink (workshop : Workshop) (lineage : Lineage) (object : Binding) :
    Workshop :=
  { workshop with
    tables := workshop.tables.mapIdx fun place table =>
      table.relink (lineage place) object }

theorem table_relink (workshop : Workshop) (lineage : Lineage)
    (object : Binding) (place : Nat) :
    (workshop.relink lineage object).table place =
      (workshop.table place).relink (lineage place) object := by
  unfold table relink
  rw [List.getD_eq_getElem?_getD, List.getD_eq_getElem?_getD,
    List.getElem?_mapIdx]
  cases workshop.tables[place]? with
  | none => rfl
  | some table => rfl

theorem IsApart.relink (apart : workshop.IsApart) (lineage : Lineage)
    (object : Binding) : (workshop.relink lineage object).IsApart := by
  refine ⟨fun place member => ?_, apart.unshared, fun table member => ?_⟩
  · show place < (workshop.tables.mapIdx _).length
    rw [List.length_mapIdx]
    exact apart.inRange place member
  · obtain ⟨place, inRange, rfl⟩ := List.mem_mapIdx.mp member
    unfold Bindings.IsKeyed
    rw [Bindings.keys_relink]
    exact apart.keyed _ (List.getElem_mem inRange)

/-- An outcome with another object under the names of one lineage or, if the
operation was rejected, of the other one. -/
def relinked (before after : Lineage) (object : Binding) :
    EStateM.Result RegistryFault Workshop Unit →
      EStateM.Result RegistryFault Workshop Unit
  | .ok () workshop => .ok () (workshop.relink after object)
  | .error fault workshop => .error fault (workshop.relink before object)

/-! ## Changes of tables -/

/-- A new table with the names that have the object in it. -/
theorem relink_withTable (workshop : Workshop) (lineage : Lineage)
    (object : Binding) (table : Bindings) (names : List TypeKey) :
    (workshop.withTable table).relink
        (lineage.set workshop.tables.length names) object =
      (workshop.relink lineage object).withTable
        (table.relink names object) := by
  have old : ∀ place (here : place < workshop.tables.length),
      lineage.set workshop.tables.length names place = lineage place :=
    fun place here => lineage.set_of_ne (Nat.ne_of_lt here) names
  have tables : ((workshop.tables ++ [table]).mapIdx fun place table =>
      table.relink (lineage.set workshop.tables.length names place) object) =
        (workshop.tables.mapIdx fun place table =>
          table.relink (lineage place) object) ++
            [table.relink names object] := by
    rw [List.mapIdx_concat, Lineage.set_self]
    congr 1
    refine List.mapIdx_eq_mapIdx_iff.mpr fun place here => ?_
    rw [old place here]
  unfold relink withTable
  dsimp only
  rw [tables]

/-- A name that is bound with or without the object. -/
theorem relink_written {place : Nat} {names : List TypeKey}
    {key : TypeKey} (apart : workshop.IsApart)
    (agree : ∀ name, name ≠ key → (name ∈ names ↔ name ∈ lineage place))
    (object binding : Binding) :
    (workshop.relink lineage object).written place key
        (if key ∈ names then object else binding) =
      (workshop.written place key binding).relink (lineage.set place names)
        object := by
  have tables : (workshop.tables.mapIdx fun other table =>
      table.relink (lineage other) object).modify place
        (·.bind key (if key ∈ names then object else binding)) =
      (workshop.tables.modify place (·.bind key binding)).mapIdx
        fun other table =>
          table.relink (lineage.set place names other) object := by
    refine List.ext_getElem? fun other => ?_
    rw [List.getElem?_modify, List.getElem?_mapIdx, List.getElem?_mapIdx,
      List.getElem?_modify]
    cases found : workshop.tables[other]? with
    | none => rfl
    | some table =>
        have keyed := apart.keyed table (List.mem_of_getElem? found)
        by_cases same : place = other
        · subst same
          have bound := Bindings.bind_relink keyed agree object binding
          simp only [if_true, Option.map_some, Option.map_eq_map, bound,
            Lineage.set_self]
        · simp only [same, if_false, Option.map_some,
            lineage.set_of_ne (Ne.symm same)]
          rfl
  unfold relink written
  dsimp only
  rw [tables]

/-! ## Operations -/

section Operations

variable (apart : workshop.IsApart) (traces : workshop.Traces lineage existing)
variable (equal : object.strategy = existing.strategy)

include apart traces equal

theorem register_relink {place : Nat} {names : List TypeKey} {key : TypeKey}
    {binding : Binding}
    (passes : Bindings.Passes (lineage place) names key binding existing) :
    register place key (if key ∈ names then object else binding)
        (workshop.relink lineage object) =
      relinked lineage (lineage.set place names) object
        (register place key binding workshop) := by
  rw [register_eq, register_eq, table_relink,
    Bindings.enter_relink (apart.isKeyed place) equal (traces place) passes]
  cases (workshop.table place).enter key binding with
  | error fault => rfl
  | ok grown =>
      exact congrArg (EStateM.Result.ok ())
        (relink_written apart passes.agree object binding)

theorem register_anew (place : Nat) (key : TypeKey) (binding : Binding) :
    register place key binding (workshop.relink lineage object) =
      relinked lineage
        (lineage.set place ((lineage place).filter (· ≠ key))) object
        (register place key binding workshop) := by
  have registered := register_relink apart traces equal
    (Bindings.passes_anew (lineage place) key binding existing)
  rw [if_neg (by simp)] at registered
  exact registered

theorem share_relink (place : Nat) (key target : TypeKey) :
    share place key target (workshop.relink lineage object) =
      relinked lineage
        (lineage.set place
          (if target ∈ lineage place then key :: lineage place
          else (lineage place).filter (· ≠ key))) object
        (share place key target workshop) := by
  unfold share
  rw [get_bind, get_bind, table_relink, Bindings.find?_relink]
  cases found : (workshop.table place).find? target with
  | none => rfl
  | some binding =>
      have same : target ∈ lineage place → binding = existing :=
        fun has => Option.some.inj
          (found.symm.trans (traces place target has))
      have registered := register_relink apart traces equal
        (Bindings.passes_share key same)
      dsimp only [Option.map_some]
      by_cases has : target ∈ lineage place
      · rw [if_pos has] at registered ⊢
        rw [if_pos List.mem_cons_self] at registered
        rw [if_pos has]
        exact registered
      · rw [if_neg has] at registered ⊢
        rw [if_neg (by simp)] at registered
        rw [if_neg has]
        exact registered

omit traces equal apart in
/-- A copy of a table has the object under the same names. -/
theorem withTable_relink (workshop : Workshop) (lineage : Lineage)
    (object : Binding) (place : Nat) :
    (workshop.relink lineage object).withTable
        ((workshop.relink lineage object).table place) =
      (workshop.withTable (workshop.table place)).relink
        (lineage.set workshop.tables.length (lineage place)) object := by
  rw [relink_withTable, table_relink]

omit traces equal apart in
theorem length_relink (workshop : Workshop) (lineage : Lineage)
    (object : Binding) :
    (workshop.relink lineage object).tables.length = workshop.tables.length :=
  List.length_mapIdx

omit traces equal apart in
theorem build_relink (place : Nat) :
    build place (workshop.relink lineage object) =
      relinked lineage (lineage.set workshop.tables.length (lineage place))
        object (build place workshop) := by
  show EStateM.Result.ok () { (workshop.relink lineage object).withTable
      ((workshop.relink lineage object).table place) with
    registries := workshop.registries ++
      [(workshop.relink lineage object).tables.length] } = _
  rw [length_relink, withTable_relink]
  rfl

omit traces equal in
theorem extend_relink {place : Nat}
    (inRange : place < workshop.tables.length) :
    extend place (workshop.relink lineage object) =
      relinked lineage (lineage.set workshop.tables.length (lineage place))
        object (extend place workshop) := by
  rw [apart.extend_eq inRange, (apart.relink lineage object).extend_eq
    (by rwa [length_relink])]
  show EStateM.Result.ok () { (workshop.relink lineage object).withTable
      ((workshop.relink lineage object).table place) with
    builders := workshop.builders ++
      [(workshop.relink lineage object).tables.length] } = _
  rw [length_relink, withTable_relink]
  rfl

omit apart traces equal in
theorem onBuilder_relink {builder : Nat} {action : Nat → Action Unit}
    {changed : Nat → Lineage}
    (relinks : ∀ place, workshop.builders[builder]? = some place →
      action place (workshop.relink lineage object) =
        relinked lineage (changed place) object (action place workshop)) :
    onBuilder builder action (workshop.relink lineage object) =
      relinked lineage (workshop.builders[builder]?.elim lineage changed)
        object (onBuilder builder action workshop) := by
  have same : (workshop.relink lineage object).builders =
      workshop.builders :=
    rfl
  unfold onBuilder
  rw [get_bind, get_bind, same]
  cases owns : workshop.builders[builder]? with
  | none => rfl
  | some place => exact relinks place owns

/-- An operation does the same with the other object. -/
theorem perform_relink (operation : Operation) :
    operation.perform (workshop.relink lineage object) =
      relinked lineage (lineage.after workshop operation) object
        (operation.perform workshop) := by
  cases operation with
  | start =>
      have started := relink_withTable workshop lineage object [] []
      show EStateM.Result.ok () { (workshop.relink lineage object).withTable
          (Bindings.relink [] [] object) with
        builders := workshop.builders ++
          [(workshop.relink lineage object).tables.length] } = _
      rw [length_relink, ← started]
      rfl
  | register builder key binding =>
      exact onBuilder_relink fun place _ =>
        register_anew apart traces equal place key binding
  | share builder key target =>
      exact onBuilder_relink fun place _ =>
        share_relink apart traces equal place key target
  | build builder => exact onBuilder_relink fun place _ => build_relink place
  | extend registry =>
      have same : (workshop.relink lineage object).registries =
          workshop.registries :=
        rfl
      dsimp only [Operation.perform, onRegistry, Lineage.after]
      rw [get_bind, get_bind, same]
      cases owns : workshop.registries[registry]? with
      | none => rfl
      | some place =>
          exact extend_relink apart (apart.inRange place
            (List.mem_append_right _ (List.mem_of_getElem? owns)))

end Operations

/-! ## What is traced -/

section Tracing

variable (apart : workshop.IsApart) (traces : workshop.Traces lineage existing)

include traces

theorem Traces.withTable {table : Bindings} {names : List TypeKey}
    (holds : ∀ name ∈ names, table.find? name = some existing) :
    (workshop.withTable table).Traces
      (lineage.set workshop.tables.length names) existing := by
  intro place name member
  by_cases new : place = workshop.tables.length
  · subst new
    rw [table_withTable_self]
    rw [Lineage.set_self] at member
    exact holds name member
  · rw [table_withTable_of_ne new]
    rw [Lineage.set_of_ne new] at member
    exact traces place name member

theorem Traces.written {place : Nat} (inRange : place < workshop.tables.length)
    {names : List TypeKey} {key : TypeKey} {binding : Binding}
    (passes : Bindings.Passes (lineage place) names key binding existing) :
    (workshop.written place key binding).Traces (lineage.set place names)
      existing := by
  intro other name member
  rw [table_written inRange]
  by_cases here : other = place
  · subst here
    rw [Lineage.set_self] at member
    rw [if_pos rfl, Bindings.find?_bind]
    by_cases same : name = key
    · subst same
      rw [if_pos rfl, passes.alike member]
    · rw [if_neg same]
      exact traces other name ((passes.agree name same).mp member)
  · rw [Lineage.set_of_ne here] at member
    rw [if_neg here]
    exact traces other name member

theorem Traces.register {place : Nat} (inRange : place < workshop.tables.length)
    {names : List TypeKey} {key : TypeKey} {binding : Binding}
    (passes : Bindings.Passes (lineage place) names key binding existing)
    {after : Workshop}
    (success : Workshop.register place key binding workshop = .ok () after) :
    after.Traces (lineage.set place names) existing := by
  rw [register_eq] at success
  split at success
  · cases success
    exact traces.written inRange passes
  · cases success

include apart

theorem Traces.onBuilder {builder : Nat} {action : Nat → Action Unit}
    {changed : Nat → Lineage} {after : Workshop}
    (keeps : ∀ place, place < workshop.tables.length →
      action place workshop = .ok () after →
        after.Traces (changed place) existing)
    (success : Workshop.onBuilder builder action workshop = .ok () after) :
    after.Traces (workshop.builders[builder]?.elim lineage changed)
      existing := by
  unfold Workshop.onBuilder at success
  rw [get_bind] at success
  cases owns : workshop.builders[builder]? with
  | none =>
      rw [owns] at success
      cases success
      exact traces
  | some place =>
      rw [owns] at success
      exact keeps place (apart.lt_of_builder owns) success

/-- The names that have the object are followed rightly. -/
theorem Traces.perform {operation : Operation} {after : Workshop}
    (success : operation.perform workshop = .ok () after) :
    after.Traces (lineage.after workshop operation) existing := by
  have copies : ∀ place, (workshop.withTable (workshop.table place)).Traces
      (lineage.set workshop.tables.length (lineage place)) existing :=
    fun place => traces.withTable (traces place)
  cases operation with
  | start =>
      cases success
      exact traces.withTable fun name member => by cases member
  | register builder key binding =>
      exact traces.onBuilder apart (fun place inRange done =>
        traces.register inRange (Bindings.passes_anew _ _ _ _) done) success
  | share builder key target =>
      refine traces.onBuilder apart (fun place inRange done => ?_) success
      unfold Workshop.share at done
      rw [get_bind] at done
      cases found : (workshop.table place).find? target with
      | none =>
          rw [found] at done
          cases done
      | some binding =>
          rw [found] at done
          exact traces.register inRange
            (Bindings.passes_share key fun has => Option.some.inj
              (found.symm.trans (traces place target has))) done
  | build builder =>
      refine traces.onBuilder apart (fun place _ done => ?_) success
      cases done
      exact copies place
  | extend registry =>
      dsimp only [Operation.perform, onRegistry] at success
      rw [get_bind] at success
      show after.Traces (workshop.registries[registry]?.elim lineage _) existing
      cases owns : workshop.registries[registry]? with
      | none =>
          rw [owns] at success
          cases success
          exact traces
      | some place =>
          have inRange := apart.inRange place
            (List.mem_append_right _ (List.mem_of_getElem? owns))
          rw [owns] at success
          dsimp only at success
          rw [apart.extend_eq inRange] at success
          cases success
          exact copies place

end Tracing

/-! ## Histories -/

/-- All operations do the same with the other object. -/
theorem after_relink {workshop : Workshop} (apart : workshop.IsApart)
    {lineage : Lineage} {existing object : Binding}
    (traces : workshop.Traces lineage existing)
    (equal : object.strategy = existing.strategy) (later : List Operation) :
    (workshop.relink lineage object).faults later = workshop.faults later ∧
      (workshop.relink lineage object).after later =
        (workshop.after later).relink (lineage.through workshop later)
          object ∧
      (workshop.after later).Traces (lineage.through workshop later)
        existing := by
  induction later generalizing workshop lineage with
  | nil => exact ⟨rfl, rfl, traces⟩
  | cons operation later inductionHypothesis =>
      have performed := perform_relink apart traces equal operation
      have next := (apart.next operation).1
      unfold Workshop.faults Workshop.after Lineage.through
      unfold Operation.next Operation.fault? at *
      rw [performed]
      cases done : operation.perform workshop with
      | ok result after =>
          rw [done] at next
          obtain ⟨faults, relinked, traced⟩ :=
            inductionHypothesis next (traces.perform apart done)
          exact ⟨congrArg _ faults, relinked, traced⟩
      | error fault after =>
          have same := apart.eq_of_error done
          subst same
          obtain ⟨faults, relinked, traced⟩ :=
            inductionHypothesis apart traces
          exact ⟨congrArg _ faults, relinked, traced⟩

end Workshop

end PickleGraph
