import PickleGraph.Proofs.Actions
import PickleGraph.Registry.Workshop

/-!
# Tables stand for builders and registries

No two builders or registries have a table in common. What an operation does to
the tables is therefore what the functions on builders and registries say about
the one that it names, and all others are left as they are.
-/

namespace PickleGraph

open Actions

/-! ## Bound names -/

namespace Bindings

variable {table : Bindings} {key : TypeKey} {object : Binding}

theorem find?_cons (bound : TypeKey) (existing : Binding)
    (table : Bindings) (key : TypeKey) :
    find? key ((bound, existing) :: table) =
      if key = bound then some existing else table.find? key := by
  unfold find?
  rw [List.lookup_cons]
  by_cases same : key = bound
  · rw [if_pos same, beq_iff_eq.mpr same]
  · rw [if_neg same, beq_eq_false_iff_ne.mpr same]

/-- A binding is found under its own name, and all others as before. -/
theorem find?_bind (table : Bindings) (key : TypeKey) (object : Binding)
    (other : TypeKey) :
    (table.bind key object).find? other =
      if other = key then some object else table.find? other := by
  induction table with
  | nil => exact find?_cons key object [] other
  | cons entry table inductionHypothesis =>
      obtain ⟨bound, existing⟩ := entry
      unfold bind
      by_cases same : bound = key
      · subst same
        rw [if_pos rfl, find?_cons, find?_cons]
        split <;> rfl
      · rw [if_neg same, find?_cons, find?_cons, inductionHypothesis]
        by_cases first : other = bound
        · rw [if_pos first, if_neg (first ▸ same)]
          exact (if_pos first).symm
        · rw [if_neg first, if_neg first]

/-- No name is bound twice. -/
def IsKeyed (table : Bindings) : Prop :=
  (table.map (·.1)).Nodup

theorem keys_bind (table : Bindings) (key : TypeKey) (object : Binding) :
    (table.bind key object).map (·.1) =
      if key ∈ table.map (·.1) then table.map (·.1)
      else table.map (·.1) ++ [key] := by
  induction table with
  | nil => rfl
  | cons entry table inductionHypothesis =>
      obtain ⟨bound, existing⟩ := entry
      unfold bind
      by_cases same : bound = key
      · subst same
        simp
      · rw [if_neg same, List.map_cons, List.map_cons, inductionHypothesis]
        simp only [List.mem_cons, Ne.symm same, false_or]
        split <;> rfl

theorem IsKeyed.bind (keyed : table.IsKeyed) (key : TypeKey)
    (object : Binding) : (table.bind key object).IsKeyed := by
  unfold IsKeyed
  rw [keys_bind]
  split
  · exact keyed
  · next new =>
      exact (List.perm_append_singleton _ _).nodup_iff.mpr
        (List.nodup_cons.mpr ⟨new, keyed⟩)

theorem bind_of_notMem (new : key ∉ table.map (·.1)) :
    table.bind key object = table ++ [(key, object)] := by
  induction table with
  | nil => rfl
  | cons entry table inductionHypothesis =>
      obtain ⟨bound, existing⟩ := entry
      rw [List.map_cons, List.mem_cons, not_or] at new
      unfold bind
      rw [if_neg (Ne.symm new.1), inductionHypothesis new.2]
      rfl

/-- Names that are bound one after the other keep their order. -/
theorem foldl_bind (entries : Bindings) {table : Bindings}
    (keyed : (table ++ entries).IsKeyed) :
    entries.foldl (fun table entry => table.bind entry.1 entry.2) table =
      table ++ entries := by
  induction entries generalizing table with
  | nil => exact (List.append_nil table).symm
  | cons entry entries inductionHypothesis =>
      have new : entry.1 ∉ table.map (·.1) := by
        unfold IsKeyed at keyed
        rw [List.map_append, List.map_cons] at keyed
        have first := List.perm_middle.nodup_iff.mp keyed
        exact fun member =>
          (List.nodup_cons.mp first).1 (List.mem_append_left _ member)
      rw [List.foldl_cons, bind_of_notMem new,
        inductionHypothesis (by rwa [List.append_assoc]), List.append_assoc]
      rfl

/-- The table of a builder after a registration. -/
def enter (table : Bindings) (key : TypeKey) (object : Binding) :
    Except RegistryFault Bindings :=
  ((RegistryBuilder.mk table 0).bindUnless key object).map (·.bindings)

/-- The table of a builder after one type has come to share the strategy of
another one. -/
def enterShared (table : Bindings) (key target : TypeKey) :
    Except RegistryFault Bindings :=
  ((RegistryBuilder.mk table 0).share key target).map (·.bindings)

theorem enter_eq (table : Bindings) (key : TypeKey) (object : Binding) :
    table.enter key object =
      match table.find? key with
      | none => .ok (table.bind key object)
      | some existing =>
          if existing.strategy = object.strategy then
            .ok (table.bind key object)
          else
            .error (.conflict key existing.strategy.target) := by
  unfold enter RegistryBuilder.bindUnless
  dsimp only
  cases table.find? key with
  | none => rfl
  | some existing =>
      dsimp only
      split <;> rfl

theorem eq_bind_of_enter {grown : Bindings}
    (success : table.enter key object = .ok grown) :
    grown = table.bind key object := by
  rw [enter_eq] at success
  split at success
  · cases success
    rfl
  · split at success
    · cases success
      rfl
    · cases success

theorem enterShared_eq (table : Bindings) (key target : TypeKey) :
    table.enterShared key target =
      match table.find? target with
      | none => .error (.missingTarget key target)
      | some object => table.enter key object := by
  unfold enterShared RegistryBuilder.share enter
  dsimp only
  cases table.find? target with
  | none => rfl
  | some object => rfl

end Bindings

/-! ## Tables of their own -/

namespace Workshop

variable {workshop : Workshop}

/-- Every builder and every registry has a table of its own. -/
structure IsApart (workshop : Workshop) : Prop where
  inRange : ∀ place ∈ workshop.builders ++ workshop.registries,
    place < workshop.tables.length
  unshared : (workshop.builders ++ workshop.registries).Nodup
  keyed : ∀ table ∈ workshop.tables, table.IsKeyed

/-- What is on the tables. -/
structure Stock where
  builders : List Bindings
  registries : List Registry

def stock (workshop : Workshop) : Stock where
  builders := workshop.builders.map workshop.table
  registries := workshop.registries.map fun place => ⟨workshop.table place⟩

theorem builders_stock (workshop : Workshop) (builder : Nat) :
    workshop.stock.builders[builder]? = workshop.builderAt? builder :=
  List.getElem?_map

theorem owns_of_builderAt? {builder : Nat}
    {table : Bindings} (here : workshop.builderAt? builder = some table) :
    ∃ place, workshop.builders[builder]? = some place ∧
      workshop.table place = table := by
  unfold builderAt? at here
  cases owns : workshop.builders[builder]? with
  | none =>
      rw [owns] at here
      cases here
  | some place =>
      rw [owns] at here
      exact ⟨place, rfl, Option.some.inj here⟩

theorem stock_of_owns {builder place : Nat}
    (owns : workshop.builders[builder]? = some place) :
    workshop.stock.builders[builder]? = some (workshop.table place) := by
  rw [builders_stock, builderAt?, owns]
  rfl

theorem registries_stock (workshop : Workshop) (registry : Nat) :
    workshop.stock.registries[registry]? = workshop.registryAt? registry :=
  List.getElem?_map

theorem isApart_empty : empty.IsApart where
  inRange := by
    rintro _ ⟨⟩
  unshared := .nil
  keyed := by
    rintro _ ⟨⟩

theorem IsApart.isKeyed (apart : workshop.IsApart) (place : Nat) :
    (workshop.table place).IsKeyed := by
  unfold table
  rw [List.getD_eq_getElem?_getD]
  cases found : workshop.tables[place]? with
  | none => exact List.nodup_nil
  | some table => exact apart.keyed table (List.mem_of_getElem? found)

/-! ## What is done to the tables -/

/-- A workshop with one more table. -/
def withTable (workshop : Workshop) (table : Bindings) : Workshop :=
  { workshop with tables := workshop.tables ++ [table] }

/-- A workshop where one more name is bound in a table. -/
def written (workshop : Workshop) (place : Nat) (key : TypeKey)
    (object : Binding) : Workshop :=
  { workshop with
    tables := workshop.tables.modify place (·.bind key object) }

theorem table_withTable_self (workshop : Workshop) (table : Bindings) :
    (workshop.withTable table).table workshop.tables.length = table := by
  unfold Workshop.table withTable
  rw [List.getD_eq_getElem?_getD, List.getElem?_concat_length]
  rfl

theorem table_withTable_of_ne {place : Nat}
    (old : place ≠ workshop.tables.length) (table : Bindings) :
    (workshop.withTable table).table place = workshop.table place := by
  unfold Workshop.table withTable
  rw [List.getD_eq_getElem?_getD, List.getD_eq_getElem?_getD,
    List.getElem?_append]
  split
  · rfl
  · next beyond =>
      have outside : 1 ≤ place - workshop.tables.length := by omega
      rw [List.getElem?_eq_none outside,
        List.getElem?_eq_none (Nat.le_of_not_lt beyond)]

theorem table_written {place : Nat} (inRange : place < workshop.tables.length)
    (key : TypeKey) (object : Binding) (other : Nat) :
    (workshop.written place key object).table other =
      if other = place then (workshop.table place).bind key object
      else workshop.table other := by
  unfold table written
  rw [List.getD_eq_getElem?_getD, List.getD_eq_getElem?_getD,
    List.getD_eq_getElem?_getD, List.getElem?_modify]
  by_cases same : other = place
  · subst same
    simp [inRange]
  · simp [same, Ne.symm same]

section Changes

variable (apart : workshop.IsApart)

include apart

/-- A new table belongs to one new builder or one new registry. -/
theorem IsApart.withTable {table : Bindings} (keyed : table.IsKeyed)
    {builders registries : List Nat}
    (order : (builders ++ registries).Perm
      (workshop.tables.length ::
        (workshop.builders ++ workshop.registries))) :
    IsApart ⟨workshop.tables ++ [table], builders, registries⟩ := by
  have new : workshop.tables.length ∉
      workshop.builders ++ workshop.registries :=
    fun member => Nat.lt_irrefl _ (apart.inRange _ member)
  refine ⟨fun place member => ?_, ?_, ?_⟩
  · rw [List.length_append, List.length_singleton]
    rcases List.mem_cons.mp (order.mem_iff.mp member) with rfl | old
    · exact Nat.lt_succ_self _
    · exact Nat.lt_succ_of_lt (apart.inRange place old)
  · exact order.nodup_iff.mpr (List.nodup_cons.mpr ⟨new, apart.unshared⟩)
  · intro other member
    rcases List.mem_append.mp member with old | isNew
    · exact apart.keyed other old
    · exact List.mem_singleton.mp isNew ▸ keyed

theorem IsApart.map_builders_withTable (table : Bindings) :
    workshop.builders.map (workshop.withTable table).table =
      workshop.stock.builders :=
  List.map_congr_left fun _ member => table_withTable_of_ne
    (Nat.ne_of_lt (apart.inRange _ (List.mem_append_left _ member))) table

theorem IsApart.map_registries_withTable (table : Bindings) :
    (workshop.registries.map fun place =>
        (⟨(workshop.withTable table).table place⟩ : Registry)) =
      workshop.stock.registries :=
  List.map_congr_left fun _ member => congrArg Registry.mk
    (table_withTable_of_ne
      (Nat.ne_of_lt (apart.inRange _ (List.mem_append_right _ member))) table)

theorem IsApart.stock_withBuilder (table : Bindings) :
    stock ⟨workshop.tables ++ [table],
        workshop.builders ++ [workshop.tables.length],
        workshop.registries⟩ =
      { workshop.stock with
        builders := workshop.stock.builders ++ [table] } := by
  show Stock.mk
      ((workshop.builders ++ [_]).map (workshop.withTable table).table)
      (workshop.registries.map fun place =>
        ⟨(workshop.withTable table).table place⟩) = _
  rw [List.map_append, apart.map_builders_withTable,
    apart.map_registries_withTable, List.map_singleton, table_withTable_self]

theorem IsApart.stock_withRegistry (table : Bindings) :
    stock ⟨workshop.tables ++ [table], workshop.builders,
        workshop.registries ++ [workshop.tables.length]⟩ =
      { workshop.stock with
        registries := workshop.stock.registries ++ [⟨table⟩] } := by
  show Stock.mk (workshop.builders.map (workshop.withTable table).table)
      ((workshop.registries ++ [_]).map fun place =>
        ⟨(workshop.withTable table).table place⟩) = _
  rw [List.map_append, apart.map_builders_withTable,
    apart.map_registries_withTable, List.map_singleton, table_withTable_self]

section Writing

variable {builder place : Nat} (owns : workshop.builders[builder]? = some place)

include owns

theorem IsApart.lt_of_builder : place < workshop.tables.length :=
  apart.inRange place (List.mem_append_left _ (List.mem_of_getElem? owns))

theorem IsApart.written (key : TypeKey) (object : Binding) :
    (workshop.written place key object).IsApart := by
  refine ⟨fun other member => ?_, apart.unshared, fun table member => ?_⟩
  · show other < (workshop.tables.modify place _).length
    rw [List.length_modify]
    exact apart.inRange other member
  · obtain ⟨other, found⟩ := List.mem_iff_getElem?.mp member
    have inRange := apart.lt_of_builder owns
    have tableIs : table = (workshop.written place key object).table other := by
      unfold Workshop.table
      rw [List.getD_eq_getElem?_getD, found]
      rfl
    rw [tableIs, table_written inRange]
    split
    · exact (apart.isKeyed place).bind key object
    · exact apart.isKeyed other

/-- Only the builder that owns the table sees what is written to it. -/
theorem IsApart.stock_written (key : TypeKey) (object : Binding) :
    (workshop.written place key object).stock =
      { workshop.stock with
        builders := workshop.stock.builders.set builder
          ((workshop.table place).bind key object) } := by
  have inRange := apart.lt_of_builder owns
  obtain ⟨buildersApart, _, separate⟩ := List.nodup_append.mp apart.unshared
  have builders : workshop.builders.map
      (workshop.written place key object).table =
        workshop.stock.builders.set builder
          ((workshop.table place).bind key object) := by
    refine List.ext_getElem? fun other => ?_
    rw [List.getElem?_map, List.getElem?_set, builders_stock, builderAt?]
    by_cases same : builder = other
    · subst same
      obtain ⟨isBuilder, _⟩ := List.getElem?_eq_some_iff.mp owns
      rw [if_pos rfl, owns, if_pos (by simpa [stock] using isBuilder)]
      show some _ = some _
      rw [table_written inRange, if_pos rfl]
    · rw [if_neg same]
      cases found : workshop.builders[other]? with
      | none => rfl
      | some otherPlace =>
          have different : otherPlace ≠ place := by
            rintro rfl
            exact same ((List.getElem?_inj
              (List.getElem?_eq_some_iff.mp owns).1 buildersApart).mp
              (owns.trans found.symm))
          show some _ = some _
          rw [table_written inRange, if_neg different]
  have registries : (workshop.registries.map fun other =>
      (⟨(workshop.written place key object).table other⟩ : Registry)) =
        workshop.stock.registries := by
    refine List.map_congr_left fun other member => ?_
    have different : other ≠ place := fun same =>
      separate place (List.mem_of_getElem? owns) other member same.symm
    rw [table_written inRange, if_neg different]
  exact congr (congrArg Stock.mk builders) registries

end Writing

end Changes

/-! ## Operations -/

namespace Stock

/-- Changes a builder, if it is there. -/
def grow (stock : Stock) (builder : Nat)
    (change : Bindings → Except RegistryFault Bindings) :
    Except RegistryFault Stock :=
  match stock.builders[builder]? with
  | none => .ok stock
  | some table => (change table).map fun grown =>
      { stock with builders := stock.builders.set builder grown }

/-- What an operation on builders and registries means, whatever the tables. -/
def after (stock : Stock) : Operation → Except RegistryFault Stock
  | .start =>
      .ok { stock with
        builders := stock.builders ++ [RegistryBuilder.empty.bindings] }
  | .register builder key object =>
      stock.grow builder (·.enter key object)
  | .share builder key target =>
      stock.grow builder (·.enterShared key target)
  | .build builder =>
      .ok { stock with
        registries := stock.registries ++
          (stock.builders[builder]?.map fun table =>
            (RegistryBuilder.mk table 0).build).toList }
  | .extend registry =>
      .ok { stock with
        builders := stock.builders ++
          (stock.registries[registry]?.map fun registry =>
            registry.extend.bindings).toList }

end Stock

/-- Where the operation means `meaning`, this has been done, and no tables have
become shared; where it is rejected, nothing has been done at all. -/
def Carries (workshop : Workshop) (action : Action Unit)
    (meaning : Except RegistryFault Stock) : Prop :=
  EndsIn
    (fun _ after => after.IsApart ∧ meaning = .ok after.stock)
    (fun fault after => after = workshop ∧ meaning = .error fault)
    (action workshop)

theorem register_eq (workshop : Workshop) (place : Nat) (key : TypeKey)
    (object : Binding) :
    register place key object workshop =
      match (workshop.table place).enter key object with
      | .ok _ => .ok () (workshop.written place key object)
      | .error fault => .error fault workshop := by
  rw [Bindings.enter_eq]
  unfold register
  rw [get_bind]
  dsimp only
  cases (workshop.table place).find? key with
  | none => rfl
  | some existing =>
      dsimp only
      by_cases same : existing.strategy = object.strategy
      · rw [if_pos same, if_neg (not_not_intro same)]
        rfl
      · rw [if_neg same, if_pos same]
        rfl

/-- The entries are written one after the other. -/
theorem forM_write (entries : Bindings) (workshop : Workshop) (place : Nat) :
    (entries.forM fun (key, object) => write place key object : Action Unit)
        workshop =
      .ok () { workshop with
        tables := workshop.tables.modify place fun table =>
          entries.foldl (fun table entry => table.bind entry.1 entry.2)
            table } := by
  induction entries generalizing workshop with
  | nil =>
      show EStateM.Result.ok () workshop =
        .ok () { workshop with tables := workshop.tables.modify place id }
      rw [List.modify_id]
  | cons entry entries inductionHypothesis =>
      have first : write place entry.1 entry.2 workshop =
          .ok () (workshop.written place entry.1 entry.2) :=
        rfl
      refine (bind_of_eq_ok first).trans ?_
      rw [inductionHypothesis]
      unfold written
      rw [List.modify_modify_eq]
      rfl

theorem modify_withTable (workshop : Workshop) (table : Bindings)
    (change : Bindings → Bindings) :
    (workshop.withTable table).tables.modify workshop.tables.length change =
      workshop.tables ++ [change table] :=
  List.modifyTailIdx_add _ 0 workshop.tables [table]

section Operations

variable (apart : workshop.IsApart)

include apart

/-- A table that is copied entry by entry is the same table. -/
theorem IsApart.extend_eq {place : Nat}
    (inRange : place < workshop.tables.length) :
    extend place workshop =
      .ok () ⟨workshop.tables ++ [workshop.table place],
        workshop.builders ++ [workshop.tables.length],
        workshop.registries⟩ := by
  have copied : (((workshop.withTable []).table place).forM
      fun (key, object) => write workshop.tables.length key object :
        Action Unit) (workshop.withTable []) =
          .ok () (workshop.withTable (workshop.table place)) := by
    rw [table_withTable_of_ne (Nat.ne_of_lt inRange), forM_write,
      modify_withTable, Bindings.foldl_bind _ (apart.isKeyed place)]
    rfl
  have started : extend place workshop =
      ((((workshop.withTable []).table place).forM
        fun (key, object) => write workshop.tables.length key object) >>=
          fun _ => modify fun workshop' : Workshop =>
            { workshop' with
              builders :=
                workshop'.builders ++ [workshop.tables.length] } :
        Action Unit) (workshop.withTable []) :=
    rfl
  rw [started, bind_of_eq_ok copied]
  rfl

/-- The table of a builder is changed, and no other one. -/
theorem IsApart.carries_grow {builder place : Nat}
    (owns : workshop.builders[builder]? = some place) {key : TypeKey}
    {object : Binding} {change : Bindings → Except RegistryFault Bindings}
    (entered : change (workshop.table place) =
      (workshop.table place).enter key object) :
    workshop.Carries (register place key object)
      (workshop.stock.grow builder change) := by
  unfold Carries Stock.grow
  rw [stock_of_owns owns, register_eq]
  dsimp only
  rw [entered]
  cases outcome : (workshop.table place).enter key object with
  | error fault => exact .error ⟨rfl, rfl⟩
  | ok grown =>
      refine .ok ⟨apart.written owns key object, ?_⟩
      rw [apart.stock_written owns, Bindings.eq_bind_of_enter outcome]
      rfl

theorem IsApart.carries_share {builder place : Nat}
    (owns : workshop.builders[builder]? = some place) (key target : TypeKey) :
    workshop.Carries (share place key target)
      (workshop.stock.grow builder (·.enterShared key target)) := by
  cases found : (workshop.table place).find? target with
  | none =>
      unfold Carries share Stock.grow
      rw [get_bind, stock_of_owns owns, found]
      dsimp only
      rw [Bindings.enterShared_eq, found]
      exact .error ⟨rfl, rfl⟩
  | some object =>
      have entered : (workshop.table place).enterShared key target =
          (workshop.table place).enter key object := by
        rw [Bindings.enterShared_eq, found]
      have carries : workshop.Carries (register place key object)
          (workshop.stock.grow builder (·.enterShared key target)) :=
        apart.carries_grow owns entered
      unfold Carries at carries ⊢
      unfold share
      rw [get_bind, found]
      exact carries

/-- A registration with a builder that was never made is none. -/
theorem IsApart.carries_onBuilder {builder : Nat}
    {action : Nat → Action Unit}
    {change : Bindings → Except RegistryFault Bindings}
    (carries : ∀ place, workshop.builders[builder]? = some place →
      workshop.Carries (action place)
        (workshop.stock.grow builder change)) :
    workshop.Carries (onBuilder builder action)
      (workshop.stock.grow builder change) := by
  unfold Carries onBuilder
  rw [get_bind]
  cases owns : workshop.builders[builder]? with
  | none =>
      have nothing : workshop.stock.grow builder change =
          .ok workshop.stock := by
        unfold Stock.grow
        rw [builders_stock, builderAt?, owns]
        rfl
      exact .ok ⟨apart, nothing⟩
  | some place => exact carries place owns

/-- Every operation does to the tables what it means. -/
theorem IsApart.carries_perform (operation : Operation) :
    workshop.Carries operation.perform
      (workshop.stock.after operation) := by
  have front : (workshop.builders ++ [workshop.tables.length] ++
      workshop.registries).Perm (workshop.tables.length ::
        (workshop.builders ++ workshop.registries)) := by
    rw [List.append_assoc]
    exact List.perm_middle
  have back : (workshop.builders ++
      (workshop.registries ++ [workshop.tables.length])).Perm
        (workshop.tables.length ::
          (workshop.builders ++ workshop.registries)) := by
    rw [← List.append_assoc]
    exact List.perm_append_singleton _ _
  cases operation with
  | start =>
      have nothing : Bindings.IsKeyed [] := List.nodup_nil
      exact .ok ⟨apart.withTable nothing front,
        congrArg Except.ok (apart.stock_withBuilder []).symm⟩
  | register builder key object =>
      exact apart.carries_onBuilder fun place owns =>
        apart.carries_grow owns rfl
  | share builder key target =>
      exact apart.carries_onBuilder fun place owns =>
        apart.carries_share owns key target
  | build builder =>
      unfold Carries Stock.after
      dsimp only [Operation.perform, onBuilder]
      rw [get_bind, builders_stock, builderAt?]
      cases workshop.builders[builder]? with
      | none => exact .ok ⟨apart, by simp⟩
      | some place =>
          exact .ok ⟨apart.withTable (apart.isKeyed place) back,
            congrArg Except.ok
              (apart.stock_withRegistry (workshop.table place)).symm⟩
  | extend registry =>
      unfold Carries Stock.after
      dsimp only [Operation.perform, onRegistry]
      rw [get_bind, registries_stock, registryAt?]
      cases owns : workshop.registries[registry]? with
      | none => exact .ok ⟨apart, by simp⟩
      | some place =>
          dsimp only
          rw [apart.extend_eq (apart.inRange place
            (List.mem_append_right _ (List.mem_of_getElem? owns)))]
          exact .ok ⟨apart.withTable (apart.isKeyed place) front,
            congrArg Except.ok
              (apart.stock_withBuilder (workshop.table place)).symm⟩

end Operations

end Workshop

end PickleGraph
