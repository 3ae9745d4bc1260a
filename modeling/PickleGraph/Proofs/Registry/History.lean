import PickleGraph.Proofs.Registry.Tables

/-!
# Histories of builders and registries

A registry answers the same however the builders go on, and a builder that goes
on keeps every name it has bound, with a strategy that is equal. Only the
registrations with a builder change it, and one that is rejected changes
nothing.
-/

namespace PickleGraph

open Actions

/-! ## Growth -/

namespace Bindings

/-- Every bound name is still bound, to an equal strategy. -/
def Keeps (table grown : Bindings) : Prop :=
  ∀ key binding, table.find? key = some binding →
    ∃ other, grown.find? key = some other ∧
      other.strategy = binding.strategy

theorem Keeps.refl (table : Bindings) : table.Keeps table :=
  fun _ binding found => ⟨binding, found, rfl⟩

theorem Keeps.trans {table grown further : Bindings}
    (first : table.Keeps grown) (second : grown.Keeps further) :
    table.Keeps further := by
  intro key binding found
  obtain ⟨middle, kept, same⟩ := first key binding found
  obtain ⟨last, stillKept, alsoSame⟩ := second key middle kept
  exact ⟨last, stillKept, alsoSame.trans same⟩

/-- A registration that would change the strategy of a name is rejected. -/
theorem keeps_of_enter {table grown : Bindings} {key : TypeKey}
    {object : Binding} (success : table.enter key object = .ok grown) :
    table.Keeps grown := by
  intro other binding found
  rw [eq_bind_of_enter success, find?_bind]
  by_cases same : other = key
  · subst same
    refine ⟨object, if_pos rfl, ?_⟩
    rw [enter_eq, found] at success
    dsimp only at success
    split at success
    · next equal => exact equal.symm
    · cases success
  · exact ⟨binding, (if_neg same).trans found, rfl⟩

theorem keeps_of_enterShared {table grown : Bindings} {key target : TypeKey}
    (success : table.enterShared key target = .ok grown) :
    table.Keeps grown := by
  rw [enterShared_eq] at success
  split at success
  · cases success
  · exact keeps_of_enter success

end Bindings

/-- The builder that an operation may change. -/
def Operation.changes? : Operation → Option Nat
  | register builder _ _ => some builder
  | share builder _ _ => some builder
  | _ => none

namespace Workshop

/-! ## One operation -/

theorem getElem?_of_prefix {α : Type} {items longer : List α}
    (isPrefix : items <+: longer) {index : Nat} {item : α}
    (here : items[index]? = some item) : longer[index]? = some item := by
  obtain ⟨more, rfl⟩ := isPrefix
  rw [List.getElem?_append_left (List.getElem?_eq_some_iff.mp here).1]
  exact here

namespace Stock

/-- Registries are only added, and builders keep what they have bound. -/
structure GrowsTo (before after : Stock) : Prop where
  registries : before.registries <+: after.registries
  builders : ∀ (builder : Nat) (table : Bindings),
    before.builders[builder]? = some table →
      ∃ grown : Bindings, after.builders[builder]? = some grown ∧
        table.Keeps grown

theorem GrowsTo.refl (stock : Stock) : stock.GrowsTo stock :=
  ⟨List.prefix_rfl, fun _ table here => ⟨table, here, .refl table⟩⟩

theorem GrowsTo.trans {before middle after : Stock}
    (first : before.GrowsTo middle) (second : middle.GrowsTo after) :
    before.GrowsTo after := by
  refine ⟨first.registries.trans second.registries,
    fun builder table here => ?_⟩
  obtain ⟨grown, there, keeps⟩ := first.builders builder table here
  obtain ⟨further, last, stillKeeps⟩ := second.builders builder grown there
  exact ⟨further, last, keeps.trans stillKeeps⟩

/-- What it takes to change a builder, and what it changes. -/
theorem grow_eq_ok {before after : Stock} {builder : Nat}
    {change : Bindings → Except RegistryFault Bindings}
    (success : before.grow builder change = .ok after) :
    after.registries = before.registries ∧
      ∀ other table, before.builders[other]? = some table →
        after.builders[other]? = some table ∨
          (other = builder ∧ ∃ grown, change table = .ok grown ∧
            after.builders[other]? = some grown) := by
  unfold grow at success
  cases here : before.builders[builder]? with
  | none =>
      rw [here] at success
      cases success
      exact ⟨rfl, fun _ _ found => .inl found⟩
  | some table =>
      rw [here] at success
      dsimp only at success
      cases changed : change table with
      | error fault =>
          rw [changed] at success
          cases success
      | ok grown =>
          rw [changed] at success
          cases success
          refine ⟨rfl, fun other found isHere => ?_⟩
          by_cases same : other = builder
          · subst same
            cases here.symm.trans isHere
            obtain ⟨inRange, _⟩ := List.getElem?_eq_some_iff.mp here
            exact .inr ⟨rfl, grown, changed,
              List.getElem?_set_self inRange⟩
          · exact .inl ((List.getElem?_set_ne (Ne.symm same)).trans isHere)

theorem growsTo_grow {before after : Stock} {builder : Nat}
    {change : Bindings → Except RegistryFault Bindings}
    (keeps : ∀ table grown, change table = .ok grown → table.Keeps grown)
    (success : before.grow builder change = .ok after) :
    before.GrowsTo after := by
  obtain ⟨registries, builders⟩ := grow_eq_ok success
  refine ⟨registries ▸ List.prefix_rfl, fun other table here => ?_⟩
  rcases builders other table here with same | ⟨_, grown, changed, there⟩
  · exact ⟨table, same, .refl table⟩
  · exact ⟨grown, there, keeps table grown changed⟩

theorem growsTo_after {before after : Stock} {operation : Operation}
    (success : before.after operation = .ok after) :
    before.GrowsTo after := by
  have added : ∀ (more : List Bindings) (builder : Nat) (table : Bindings),
      before.builders[builder]? = some table →
        ∃ grown : Bindings, (before.builders ++ more)[builder]? = some grown ∧
          table.Keeps grown :=
    fun more builder table here =>
      ⟨table, getElem?_of_prefix (List.prefix_append _ more) here,
        .refl table⟩
  cases operation with
  | start =>
      cases success
      exact ⟨List.prefix_rfl, added _⟩
  | register builder key object =>
      exact growsTo_grow (fun _ _ => Bindings.keeps_of_enter) success
  | share builder key target =>
      exact growsTo_grow (fun _ _ => Bindings.keeps_of_enterShared) success
  | build builder =>
      cases success
      exact ⟨List.prefix_append _ _, (GrowsTo.refl before).builders⟩
  | extend registry =>
      cases success
      exact ⟨List.prefix_rfl, added _⟩

theorem builders_after {before after : Stock} {operation : Operation}
    (success : before.after operation = .ok after) {builder : Nat}
    {table : Bindings} (here : before.builders[builder]? = some table)
    (other : operation.changes? ≠ some builder) :
    after.builders[builder]? = some table := by
  have apart : ∀ named change, named ≠ builder →
      before.grow named change = .ok after →
        after.builders[builder]? = some table := by
    intro named change different success
    rcases (grow_eq_ok success).2 builder table here with
      same | ⟨isNamed, _⟩
    · exact same
    · exact absurd isNamed.symm different
  cases operation with
  | start | extend =>
      cases success
      exact getElem?_of_prefix (List.prefix_append _ _) here
  | register named key object =>
      exact apart named _ (fun same => other (congrArg some same)) success
  | share named key target =>
      exact apart named _ (fun same => other (congrArg some same)) success
  | build =>
      cases success
      exact here

end Stock

section Step

variable {workshop : Workshop} (apart : workshop.IsApart)

include apart

theorem IsApart.next (operation : Operation) :
    (operation.next workshop).IsApart ∧
      (workshop.stock.after operation = .ok (operation.next workshop).stock ∨
        operation.next workshop = workshop) := by
  have carries := apart.carries_perform operation
  unfold Carries at carries
  unfold Operation.next
  cases done : operation.perform workshop with
  | ok result after =>
      rw [done] at carries
      exact ⟨carries.1, .inl carries.2⟩
  | error fault after =>
      rw [done] at carries
      have same : after = workshop := carries.1
      exact ⟨same ▸ apart, .inr same⟩

/-- A rejected operation leaves everything as it was. -/
theorem IsApart.eq_of_error {operation : Operation} {fault : RegistryFault}
    {after : Workshop}
    (rejected : operation.perform workshop = .error fault after) :
    after = workshop := by
  have carries := apart.carries_perform operation
  unfold Carries at carries
  rw [rejected] at carries
  exact carries.1

/-- An operation that grows one builder does nothing to another one. -/
theorem IsApart.builderAt?_next {operation : Operation} {builder : Nat}
    {table : Bindings} (here : workshop.builderAt? builder = some table)
    (other : operation.changes? ≠ some builder) :
    (operation.next workshop).builderAt? builder = some table := by
  rcases (apart.next operation).2 with carried | same
  · rw [← builders_stock] at here ⊢
    exact Stock.builders_after carried here other
  · rw [same]
    exact here

/-- A registry is built of what its builder has bound so far. -/
theorem IsApart.registryAt?_build {builder : Nat} {table : Bindings}
    (here : workshop.builderAt? builder = some table) :
    ((Operation.build builder).next workshop).registryAt?
        workshop.registries.length =
      some (RegistryBuilder.mk table 0).build := by
  obtain ⟨place, owns, rfl⟩ := owns_of_builderAt? here
  have built : (Operation.build builder).next workshop =
      ⟨workshop.tables ++ [workshop.table place], workshop.builders,
        workshop.registries ++ [workshop.tables.length]⟩ := by
    dsimp only [Operation.next, Operation.perform, onBuilder]
    rw [get_bind, owns]
    rfl
  have length : workshop.stock.registries.length =
      workshop.registries.length :=
    List.length_map _
  rw [built, ← registries_stock, apart.stock_withRegistry, ← length]
  exact List.getElem?_concat_length

end Step

/-! ## Histories -/

theorem IsApart.after {workshop : Workshop} (apart : workshop.IsApart)
    (later : List Operation) :
    (workshop.after later).IsApart ∧
      workshop.stock.GrowsTo (workshop.after later).stock := by
  induction later generalizing workshop with
  | nil => exact ⟨apart, .refl _⟩
  | cons operation later inductionHypothesis =>
      obtain ⟨stillApart, step⟩ := apart.next operation
      obtain ⟨finallyApart, rest⟩ := inductionHypothesis stillApart
      refine ⟨finallyApart, ?_⟩
      rcases step with carried | same
      · exact (Stock.growsTo_after carried).trans rest
      · rw [same] at rest
        show workshop.stock.GrowsTo
          ((operation.next workshop).after later).stock
        rw [same]
        exact rest

theorem isApart_after (history : List Operation) :
    (empty.after history).IsApart :=
  (isApart_empty.after history).1

/-- Whatever has been done, and whatever is done later: a registry that was
built stays as it is; a builder keeps the names it has bound, with equal
strategies, also in the registries that are built from it later; an operation
that does not name a builder for a registration leaves it as it is; and a
rejected operation changes nothing. -/
theorem after_keeps (earlier later : List Operation) :
    (∀ number registry,
      (empty.after earlier).registryAt? number = some registry →
        ((empty.after earlier).after later).registryAt? number =
          some registry) ∧
      (∀ builder table,
        (empty.after earlier).builderAt? builder = some table →
          ∃ grown,
            ((empty.after earlier).after later).builderAt? builder =
                some grown ∧
              table.Keeps grown ∧
              ((Operation.build builder).next
                  ((empty.after earlier).after later)).registryAt?
                  ((empty.after earlier).after later).registries.length =
                some ⟨grown⟩) ∧
      (∀ (operation : Operation) builder table,
        (empty.after earlier).builderAt? builder = some table →
          operation.changes? ≠ some builder →
            (operation.next (empty.after earlier)).builderAt? builder =
              some table) ∧
      ∀ (operation : Operation) fault after,
        operation.perform (empty.after earlier) = .error fault after →
          after = empty.after earlier := by
  have apart := isApart_after earlier
  obtain ⟨laterApart, grows⟩ := apart.after later
  refine ⟨fun number registry here => ?_, fun builder table here => ?_,
    fun operation builder table here other => apart.builderAt?_next here other,
    fun operation fault after rejected => apart.eq_of_error rejected⟩
  · rw [← registries_stock] at here ⊢
    exact getElem?_of_prefix grows.registries here
  · rw [← builders_stock] at here
    obtain ⟨grown, there, keeps⟩ := grows.builders builder table here
    rw [builders_stock] at there
    exact ⟨grown, there, keeps, laterApart.registryAt?_build there⟩

end Workshop

end PickleGraph
