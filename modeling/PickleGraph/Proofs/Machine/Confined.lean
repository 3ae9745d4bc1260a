import PickleGraph.Proofs.Machine.Confinement

/-!
# Pickles inside stay confined

A run of a machine, and of the machines for the pickles inside, leaves all
objects of an earlier heap alone if the machine is confined beyond this heap. A
machine for a pickle inside starts with nothing in hand, so it is confined beyond
the heap in which it starts.
-/

namespace PickleGraph

open Actions

namespace Execution

open Machine Guards

variable {α : Type} {start : Heap} {held : List Address}
variable {shown : α → List Address}

/-! ## Instructions -/

section Steps

variable {options : Options} {nested : Decoding Value}

/-- The action keeps a machine confined, together with the value of a pickle that
it ends. -/
abbrev GuardsResult (start : Heap) (held : List Address)
    (action : Execution (Option Value)) : Prop :=
  Guards start held (fun result => Values.addresses result.toList) action

theorem GuardsResult.proceed {action : Execution Unit}
    (guards : GuardsBare start held action) :
    GuardsResult start held (execute.proceed action) :=
  .follow guards fun _ => .pure (List.nil_subset _)

theorem guards_pushFloat (number : Binary64) :
    GuardsResult start held (execute options nested (.pushFloat number)) := by
  have makes : Guards start held Value.addresses
      (decoding (Decoding.make fun heap => .ok (heap.float number))) :=
    .decoding fun _ _ => .make fun heap => .ok fun confines => by
      rw [Heap.addresses_float]
      exact confines.of_objects_eq (Heap.objects_float heap number)
  exact .proceed (.bind makes fun value =>
    .push (List.subset_append_left _ _))

theorem guards_pop :
    GuardsResult start held (execute options nested .pop) := by
  refine .proceed (Meets.get fun machine confined => ?_)
  split
  · have guards : GuardsBare start held (do let _ ← popMark) :=
      .bind .popMark fun _ => .pure (List.nil_subset _)
    exact fun _ same => guards _ (same ▸ confined)
  · have guards : GuardsBare start held (do let _ ← pop) :=
      .bind .pop fun _ => .pure (List.nil_subset _)
    exact fun _ same => guards _ (same ▸ confined)

theorem guards_dict :
    GuardsResult start held (execute options nested .dict) := by
  refine .proceed (.bind .popMark fun items => ?_)
  refine .bind (.entriesOf (List.subset_append_left _ _)) fun entries =>
    .follow (.checkReach _ _) fun _ => .pushNew ?_
  have merged := Entries.addresses_merge_nil entries
  simp only [Object.addresses]
  grind

theorem guards_frozenSet :
    GuardsResult start held (execute options nested .frozenSet) := by
  refine .proceed (.bind .popMark fun items => ?_)
  refine .heap_follow fun heap => ?_
  refine .follow (.checkHashable heap items) fun _ =>
    .follow (.checkReach _ _) fun _ => .push ?_
  have merged := Members.addresses_merge_nil items
  rw [Value.addresses_frozenset]
  grind

theorem guards_setItem :
    GuardsResult start held (execute options nested .setItem) := by
  refine .proceed (.bind .pop fun value => .bind .pop fun key =>
    .extendDict ?_)
  simp only [Values.addresses_cons, Values.addresses_nil]
  grind

theorem guards_memoize :
    GuardsResult start held (execute options nested .memoize) := by
  refine .proceed (Meets.get fun machine confined => ?_)
  have guards : GuardsBare start held (memoPut machine.memo.length) :=
    .memoPut _
  exact fun _ same => guards _ (same ▸ confined)

theorem guards_stackGlobal :
    GuardsResult start held (execute options nested .stackGlobal) := by
  refine .proceed (.bind .pop fun name => .bind .pop fun module => ?_)
  split
  · exact .pushType _ _ _
  · exact .reject

theorem guards_obj :
    GuardsResult start held (execute options nested .obj) := by
  refine .proceed (.bind .popMark fun items => ?_)
  split
  · exact .reject
  · next type args =>
      refine .bind (.instantiate ?_) fun value =>
        .push (List.subset_append_left _ _)
      rw [addresses_ofArgs]
      simp

theorem guards_newObj :
    GuardsResult start held (execute options nested .newObj) := by
  refine .proceed (.bind .pop fun args => .bind .pop fun type => ?_)
  have inHand : args.addresses ⊆
      type.addresses ++ (args.addresses ++ held) := by
    grind
  refine .bind (.argumentsOf inHand) fun args => ?_
  refine .bind (.instantiate ?_) fun value =>
    .push (List.subset_append_left _ _)
  rw [addresses_ofArgs]
  exact List.subset_append_left _ _

/-- The values passed by name are in a mapping that the machine held. -/
theorem guards_newObjEx :
    GuardsResult start held (execute options nested .newObjEx) := by
  refine .proceed (.bind .pop fun named => .bind .pop fun args => ?_)
  refine .bind .pop fun type => .heap_bind fun machine confined => ?_
  split
  · next args entries isMapping =>
      have inHand : named.addresses ⊆
          type.addresses ++ ((Value.tuple args).addresses ++
            (named.addresses ++ held)) ++ machine.addresses := by
        grind
      have opened : machine.IsConfined start (Entries.addresses entries ++
          (type.addresses ++ ((Value.tuple args).addresses ++
            (named.addresses ++ held)))) := by
        have confines := Heap.Confines.entries confined inHand isMapping
        rw [← List.append_assoc] at confines
        exact confines
      have guards : GuardsBare start (Entries.addresses entries ++
          (type.addresses ++ ((Value.tuple args).addresses ++
            (named.addresses ++ held))))
          (do push (← instantiate type ⟨args, entries⟩)) := by
        refine .bind (.instantiate ?_) fun value =>
          .push (List.subset_append_left _ _)
        rw [Value.addresses_tuple]
        unfold Call.addresses
        grind
      exact guards.here opened (List.subset_append_right _ _)
  · exact Guards.reject.here confined (List.Subset.refl _)

theorem guards_reduce :
    GuardsResult start held (execute options nested .reduce) := by
  refine .proceed (.bind .pop fun args => .bind .peek fun type => ?_)
  have inHand : args.addresses ⊆
      type.addresses ++ (args.addresses ++ held) := by
    grind
  refine .bind (.argumentsOf inHand) fun args => ?_
  refine .bind (.instantiate ?_) fun value =>
    .replaceTop (List.subset_append_left _ _)
  rw [addresses_ofArgs]
  exact List.subset_append_left _ _

variable (guardsNested : ∀ held,
  Decoding.Guards start held Value.addresses nested)
include guardsNested

theorem guards_build :
    GuardsResult start held (execute options nested .build) := by
  refine .proceed ?_
  rw [giveState_eq]
  exact .bind .applyToTop fun target => .fillPlaceholder guardsNested _ _

/-- Every instruction that carries no addresses of its own keeps a machine
confined, if the pickles inside do. Only the end of a pickle gives a value, and
then the machine is confined together with it. -/
theorem guards_execute {instruction : Instruction}
    (isBare : instruction.IsBare) :
    GuardsResult start held (execute options nested instruction) := by
  cases instruction with
  | stop =>
      refine .bind .finish fun value => .pure ?_
      simp
  | protocol version =>
      exact .proceed (.change (fun _ => rfl) fun machine =>
        List.subset_append_right _ _)
  | frame size => exact .proceed (.decoding fun _ _ => .reading)
  | push value =>
      refine .proceed (.push ?_)
      rw [isBare.addresses_eq]
      exact List.nil_subset _
  | pushFloat number => exact guards_pushFloat number
  | pushObject object =>
      refine .proceed (.pushNew ?_)
      rw [isBare.addresses_eq]
      exact List.nil_subset _
  | mark => exact .proceed .mark
  | pop => exact guards_pop
  | popMark =>
      exact .proceed (.bind .popMark fun _ => .pure (List.nil_subset _))
  | dup =>
      exact .proceed (.bind .peek fun value =>
        .push (List.subset_append_left _ _))
  | list =>
      exact .proceed (.bind .popMark fun items =>
        .pushNew (List.subset_append_left _ _))
  | dict => exact guards_dict
  | tuple =>
      refine .proceed (.bind .popMark fun items => .push ?_)
      rw [Value.addresses_tuple]
      exact List.subset_append_left _ _
  | frozenSet => exact guards_frozenSet
  | tupleOf size =>
      refine .proceed (.bind (.popMany size) fun items => .push ?_)
      rw [Value.addresses_tuple]
      exact List.subset_append_left _ _
  | append =>
      refine .proceed (.bind .pop fun value => .extendList ?_)
      simp
  | appends =>
      exact .proceed (.bind .popMark fun items =>
        .extendList (List.subset_append_left _ _))
  | setItem => exact guards_setItem
  | setItems =>
      exact .proceed (.bind .popMark fun items =>
        .extendDict (List.subset_append_left _ _))
  | addItems =>
      exact .proceed (.bind .popMark fun items =>
        .extendSet (List.subset_append_left _ _))
  | get slot =>
      exact .proceed (.bind (.memoGet slot) fun value =>
        .push (List.subset_append_left _ _))
  | put slot =>
      refine .proceed ?_
      split
      · exact .reject
      · exact .memoPut _
  | memoize => exact guards_memoize
  | «global» module name => exact .proceed (.pushType _ _ _)
  | stackGlobal => exact guards_stackGlobal
  | inst module name => exact .proceed (.instantiateNamed _ _ _)
  | obj => exact guards_obj
  | newObj => exact guards_newObj
  | newObjEx => exact guards_newObjEx
  | reduce => exact guards_reduce
  | build => exact guards_build guardsNested
  | readonlyBuffer => exact .proceed .protectTop

theorem guards_perform (opcode : Opcode) :
    GuardsResult start held (perform options nested opcode) := by
  intro machine confined
  have argues := (Instruction.argues_confines options.rules opcode start
    (held ++ machine.addresses)).ofOpcode machine.source confined
  have bare := Instruction.isBare_ofOpcode options.rules opcode
    machine.source
  cases argued : Instruction.ofOpcode options.rules opcode
      machine.source with
  | error failure source =>
      rw [argued] at argues
      have parsed : decoding (Instruction.ofOpcode options.rules opcode)
          machine = .error failure { machine with source } := by
        unfold decoding
        rw [argued]
      rw [perform, bind_of_eq_error parsed]
      have kept : start.Confines (held ++ machine.addresses) source.heap :=
        argues
      exact kept.mono (List.subset_append_right _ _)
  | ok instruction source =>
      rw [argued] at argues
      have parsed : decoding (Instruction.ofOpcode options.rules opcode)
          machine = .ok instruction { machine with source } :=
        decoding_eq_ok_iff.mpr ⟨source, argued, rfl⟩
      have ready : IsConfined start held { machine with source } := argues
      have executes : GuardsResult start held
          (execute options nested instruction) :=
        guards_execute guardsNested (bare _ _ argued)
      rw [perform, bind_of_eq_ok parsed]
      refine Guards.bind executes (fun result => ?_) _ ready
      have finishes : GuardsResult start
          (Values.addresses result.toList ++ held) (pure result) :=
        .pure (List.subset_append_left _ _)
      split
      · exact .follow (.change (fun _ => rfl) fun machine =>
          List.subset_append_right _ _) fun _ => finishes
      · exact finishes

omit guardsNested in
theorem guards_readOpcode : GuardsBare start held readOpcode := by
  have looks : GuardsBare start held (get : Execution Machine) :=
    fun _ confined => confined
  have moves : ∀ offset : Nat, GuardsBare start held
      (modify fun machine : Machine => { machine with offset }) :=
    fun _ => .change (fun _ => rfl) fun _ => List.subset_append_right _ _
  refine .follow looks fun machine => .follow (moves _) fun _ => ?_
  refine .follow (.decoding fun _ _ => .mapFailure .reading) fun code => ?_
  dsimp only
  split
  · exact .pure (List.nil_subset _)
  · exact .throw

theorem guards_step : GuardsResult start held (step options nested) :=
  .follow guards_readOpcode (guards_perform guardsNested)

end Steps

/-! ## Runs -/

theorem guards_placed {action : Execution α}
    (guards : Guards start held shown action) :
    Guards start held shown (placed action) := by
  intro machine confined
  have met := guards machine confined
  unfold placed
  cases outcome : action machine with
  | ok result after =>
      rw [outcome] at met
      exact met
  | error failure after =>
      rw [outcome] at met
      exact met

/-- A pickle inside starts with nothing in hand, in the heap that is there. -/
theorem guards_inside {action : Execution Value}
    (guards : ∀ start, Guards start [] Value.addresses action)
    (start : Heap) (held : List Address) :
    Decoding.Guards start held Value.addresses (inside action) := by
  intro source confines
  have met := guards source.heap
    (Machine.ofReader source.reader source.heap false) (.refl source.heap)
  unfold inside
  cases outcome :
      action (Machine.ofReader source.reader source.heap false) with
  | ok value after =>
      rw [outcome] at met
      refine EndsIn.ok ((confines.trans met).mono ?_)
      grind
  | error failure after =>
      rw [outcome] at met
      exact EndsIn.error ((confines.trans met).mono
        (List.subset_append_right _ _))

theorem guards_run (steps : Nat) (options : Options) (start : Heap)
    (held : List Address) :
    Guards start held Value.addresses (run steps options) := by
  induction steps generalizing options start held with
  | zero => exact guards_placed .throw
  | succ steps inductionHypothesis =>
      rw [run_succ]
      have guardsNested := guards_inside fun start =>
        inductionHypothesis (nestedOptions options) start []
      refine .bind (guards_placed (guards_step (guardsNested start)))
        fun result => ?_
      cases result with
      | some value => exact .pure (by simp)
      | none => exact inductionHypothesis options start _

/-- A pickle inside leaves everything that was there as it was, and gives nothing
that leads to it. -/
theorem guards_nestedPickle (options : Options) (start : Heap)
    (held : List Address) :
    Decoding.Guards start held Value.addresses (nestedPickle options) :=
  guards_inside (fun start machine confined =>
    guards_run (machine.size + 1) (nestedOptions options) start [] machine
      confined) start held

end Execution

end PickleGraph
