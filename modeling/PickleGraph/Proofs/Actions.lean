import Mathlib.Order.Defs.Unbundled

/-!
# Actions with state and failure

An action ends in a state whether it succeeds or fails. A relation between
states that is reflexive and transitive is kept by a sequence of actions as soon
as each of them keeps it, and a contract is met by a sequence whose parts meet
contracts that fit together.
-/

namespace PickleGraph.Actions

variable {ε σ α β : Type}

/-- The state in which an action leaves off. -/
def finalState : EStateM.Result ε σ α → σ
  | .ok _ after => after
  | .error _ after => after

/-- Whether a run has ended with a result. -/
def succeeds : EStateM.Result ε σ α → Bool
  | .ok .. => true
  | .error .. => false

/-! ## Successful sequences -/

theorem bind_eq_ok_iff
    {action : EStateM ε σ α} {next : α → EStateM ε σ β}
    {before after : σ} {result : β} :
    (action >>= next) before = .ok result after ↔
      ∃ value middle,
        action before = .ok value middle ∧
          next value middle = .ok result after := by
  constructor
  · intro success
    simp only [bind, EStateM.bind] at success
    split at success
    · exact ⟨_, _, by assumption, success⟩
    · cases success
  · rintro ⟨value, middle, first, second⟩
    simp only [bind, EStateM.bind, first, second]

theorem bind_of_eq_ok
    {action : EStateM ε σ α} {next : α → EStateM ε σ β}
    {before middle : σ} {value : α}
    (success : action before = .ok value middle) :
    (action >>= next) before = next value middle := by
  simp only [bind, EStateM.bind, success]

theorem bind_of_eq_error
    {action : EStateM ε σ α} {next : α → EStateM ε σ β}
    {before middle : σ} {failure : ε}
    (failed : action before = .error failure middle) :
    (action >>= next) before = .error failure middle := by
  simp only [bind, EStateM.bind, failed]

/-- Sequences that start alike and go on alike are the same. -/
theorem bind_congr
    {first second : EStateM ε σ α} {next further : α → EStateM ε σ β}
    {before : σ} (same : first before = second before)
    (alike : ∀ value middle, first before = .ok value middle →
      next value middle = further value middle) :
    (first >>= next) before = (second >>= further) before := by
  cases outcome : first before with
  | ok value middle =>
      rw [bind_of_eq_ok outcome, bind_of_eq_ok (same.symm.trans outcome)]
      exact alike value middle outcome
  | error failure middle =>
      rw [bind_of_eq_error outcome, bind_of_eq_error (same.symm.trans outcome)]

theorem get_bind (next : σ → EStateM ε σ β) (before : σ) :
    (get >>= next) before = next before before :=
  rfl

theorem except_bind_eq_ok_iff
    {outcome : Except ε α} {next : α → Except ε β} {result : β} :
    outcome >>= next = .ok result ↔
      ∃ value, outcome = .ok value ∧ next value = .ok result := by
  cases outcome with
  | error failure => simp [bind, Except.bind]
  | ok value => simp [bind, Except.bind]

theorem except_bind_eq_error_iff
    {outcome : Except ε α} {next : α → Except ε β} {failure : ε} :
    outcome >>= next = .error failure ↔
      outcome = .error failure ∨
        ∃ value, outcome = .ok value ∧ next value = .error failure := by
  cases outcome with
  | error other => simp [bind, Except.bind]
  | ok value => simp [bind, Except.bind]

theorem except_bind_of_eq_ok
    {outcome : Except ε α} {next : α → Except ε β} {value : α}
    (success : outcome = .ok value) : outcome >>= next = next value := by
  rw [success]
  rfl

/-- What follows a changed outcome may change it itself. -/
theorem except_map_bind {α' : Type} (change : α → α') (outcome : Except ε α)
    (next : α' → Except ε β) :
    outcome.map change >>= next =
      outcome >>= fun value => next (change value) := by
  cases outcome <;> rfl

theorem except_bind_map {β' : Type} (change : β → β')
    (outcome : Except ε α) (next : α → Except ε β) :
    (outcome >>= next).map change =
      outcome >>= fun value => (next value).map change := by
  cases outcome <;> rfl

theorem except_map_mapError {ε' : Type} (change : α → β)
    (failures : ε → ε') (outcome : Except ε α) :
    (outcome.map change).mapError failures =
      (outcome.mapError failures).map change := by
  cases outcome <;> rfl

theorem except_bind_congr_of_ok {outcome : Except ε α}
    {next further : α → Except ε β}
    (same : ∀ value, outcome = .ok value → next value = further value) :
    outcome >>= next = outcome >>= further := by
  cases outcome with
  | error failure => rfl
  | ok value => exact same value rfl

theorem except_bind_congr {outcome : Except ε α} {next further : α → Except ε β}
    (same : ∀ value, next value = further value) :
    outcome >>= next = outcome >>= further :=
  except_bind_congr_of_ok fun value _ => same value

/-- Where the items are refused, one of them is. -/
theorem exists_of_except_mapM_error {action : α → Except ε β} {items : List α}
    {failure : ε} (refused : items.mapM action = .error failure) :
    ∃ item ∈ items, action item = .error failure := by
  induction items with
  | nil => cases refused
  | cons item items inductionHypothesis =>
      rw [List.mapM_cons, except_bind_eq_error_iff] at refused
      rcases refused with first | ⟨_, _, later⟩
      · exact ⟨item, List.mem_cons_self, first⟩
      · rcases except_bind_eq_error_iff.mp later with rest | ⟨_, _, collected⟩
        · obtain ⟨found, member, failed⟩ := inductionHypothesis rest
          exact ⟨found, List.mem_cons_of_mem _ member, failed⟩
        · cases collected

/-- Items that are changed are made into what is changed. -/
theorem except_mapM_map {α' β' : Type} {before : α → α'} {change : β → β'}
    {first : α → Except ε β} {second : α' → Except ε β'} (items : List α)
    (same : ∀ item, second (before item) = (first item).map change) :
    (items.map before).mapM second =
      (items.mapM first).map (List.map change) := by
  induction items with
  | nil => rfl
  | cons item rest inductionHypothesis =>
      rw [List.map_cons, List.mapM_cons, List.mapM_cons, same,
        except_map_bind, except_bind_map]
      refine except_bind_congr fun value => ?_
      rw [inductionHypothesis, except_map_bind, except_bind_map]
      rfl

theorem except_foldlM_map {α' β' : Type} {before : α → α'} {change : β → β'}
    {first : β → α → Except ε β} {second : β' → α' → Except ε β'}
    (same : ∀ state item,
      second (change state) (before item) = (first state item).map change)
    (items : List α) (state : β) :
    (items.map before).foldlM second (change state) =
      (items.foldlM first state).map change := by
  induction items generalizing state with
  | nil => rfl
  | cons item rest inductionHypothesis =>
      rw [List.map_cons, List.foldlM_cons, List.foldlM_cons, same,
        except_map_bind, except_bind_map]
      exact except_bind_congr inductionHypothesis

theorem mapError_eq_ok_iff
    {ε' : Type} {change : ε → ε'} {outcome : Except ε α} {result : α} :
    outcome.mapError change = .ok result ↔ outcome = .ok result := by
  cases outcome with
  | error failure =>
      show (.error (change failure) : Except ε' α) = .ok result ↔ _
      simp
  | ok value =>
      show (.ok value : Except ε' α) = .ok result ↔ _
      simp

/-- What is made of the items of a list is made of one of them. -/
theorem exists_of_mem_mapM
    {change : α → Except ε β} {items : List α} {results : List β}
    (success : items.mapM change = .ok results) {result : β}
    (member : result ∈ results) :
    ∃ item ∈ items, change item = .ok result := by
  induction items generalizing results with
  | nil =>
      cases success
      cases member
  | cons item rest inductionHypothesis =>
      rw [List.mapM_cons] at success
      obtain ⟨first, made, success⟩ := except_bind_eq_ok_iff.mp success
      obtain ⟨others, madeRest, success⟩ :=
        except_bind_eq_ok_iff.mp success
      cases success
      rcases List.mem_cons.mp member with rfl | later
      · exact ⟨item, List.mem_cons_self, made⟩
      · obtain ⟨other, isItem, isMade⟩ := inductionHypothesis madeRest later
        exact ⟨other, List.mem_cons_of_mem _ isItem, isMade⟩

/-- Every item of a list is made into something. -/
theorem exists_of_mapM {change : α → Except ε β} {items : List α}
    {results : List β} (success : items.mapM change = .ok results)
    {item : α} (member : item ∈ items) :
    ∃ result, change item = .ok result := by
  induction items generalizing results with
  | nil => cases member
  | cons first rest inductionHypothesis =>
      rw [List.mapM_cons] at success
      obtain ⟨result, made, success⟩ := except_bind_eq_ok_iff.mp success
      obtain ⟨others, madeRest, _⟩ := except_bind_eq_ok_iff.mp success
      rcases List.mem_cons.mp member with rfl | later
      · exact ⟨result, made⟩
      · exact inductionHypothesis madeRest later

theorem eq_map_of_mapM {change : α → Option β} {back : β → α}
    (inverse : ∀ item result, change item = some result → item = back result)
    {items : List α} {results : List β}
    (made : items.mapM change = some results) : items = results.map back := by
  induction items generalizing results with
  | nil =>
      cases made
      rfl
  | cons item rest inductionHypothesis =>
      rw [List.mapM_cons] at made
      obtain ⟨first, isFirst, made⟩ := Option.bind_eq_some_iff.mp made
      obtain ⟨others, areOthers, made⟩ := Option.bind_eq_some_iff.mp made
      cases made
      rw [inverse item first isFirst, inductionHypothesis areOthers]
      rfl

/-! ## Relations between states -/

/-- Every run of the action ends in a state related to the one before it. -/
def Moves (relation : σ → σ → Prop) (action : EStateM ε σ α) : Prop :=
  ∀ before, relation before (finalState (action before))

namespace Moves

variable {relation : σ → σ → Prop} [IsPreorder σ relation]

theorem pure (result : α) :
    Moves relation (Pure.pure result : EStateM ε σ α) :=
  fun before => refl_of relation before

theorem throw (failure : ε) :
    Moves relation (MonadExcept.throw failure : EStateM ε σ α) :=
  fun before => refl_of relation before

/-- What follows an action starts only where the action has succeeded. -/
theorem bind_of_ok
    {action : EStateM ε σ α} {next : α → EStateM ε σ β}
    (first : Moves relation action)
    (second : ∀ value before middle, action before = .ok value middle →
      relation middle (finalState (next value middle))) :
    Moves relation (action >>= next) := by
  intro before
  have moved := first before
  cases outcome : action before with
  | ok value middle =>
      rw [outcome] at moved
      rw [bind_of_eq_ok outcome]
      exact trans_of relation moved (second value before middle outcome)
  | error failure middle =>
      rw [outcome] at moved
      rw [bind_of_eq_error outcome]
      exact moved

theorem bind
    {action : EStateM ε σ α} {next : α → EStateM ε σ β}
    (first : Moves relation action)
    (second : ∀ value, Moves relation (next value)) :
    Moves relation (action >>= next) :=
  bind_of_ok first fun value _ middle _ => second value middle

/-- What follows an action moves on from where the action has ended. -/
theorem bind_from
    {action : EStateM ε σ α} {next : α → EStateM ε σ β} {start before : σ}
    (first : relation start (finalState (action before)))
    (second : ∀ value, Moves relation (next value)) :
    relation start (finalState ((action >>= next) before)) := by
  cases outcome : action before with
  | ok value middle =>
      rw [outcome] at first
      rw [bind_of_eq_ok outcome]
      exact trans_of relation first (second value middle)
  | error failure middle =>
      rw [outcome] at first
      rw [bind_of_eq_error outcome]
      exact first

end Moves

/-- What follows an action that changes nothing starts where it does. -/
theorem Moves.bind_congr {action : EStateM ε σ α}
    {next further : α → EStateM ε σ β} {before : σ}
    (quiet : Moves Eq action)
    (alike : ∀ value, next value before = further value before) :
    (action >>= next) before = (action >>= further) before := by
  refine Actions.bind_congr rfl fun value middle outcome => ?_
  have same := quiet before
  rw [outcome] at same
  cases same
  exact alike value

theorem Moves.mono {relation wider : σ → σ → Prop}
    {action : EStateM ε σ α}
    (weaken : ∀ before after, relation before after → wider before after)
    (moves : Moves relation action) : Moves wider action :=
  fun before => weaken _ _ (moves before)

/-- A property of the first state that still holds of the second. -/
def Keeps (holds : σ → Prop) (before after : σ) : Prop :=
  holds before → holds after

instance (holds : σ → Prop) : IsPreorder σ (Keeps holds) where
  refl _ kept := kept
  trans _ _ _ first second kept := second (first kept)

/-! ## Results -/

/-- Every result of the action has the property. -/
def Returns (property : α → Prop) (action : EStateM ε σ α) : Prop :=
  ∀ before result after, action before = .ok result after → property result

namespace Returns

variable {property : β → Prop}

theorem pure {result : β} (holds : property result) :
    Returns property (Pure.pure result : EStateM ε σ β) := by
  rintro _ _ _ ⟨⟩
  exact holds

theorem throw (failure : ε) :
    Returns property (MonadExcept.throw failure : EStateM ε σ β) := by
  rintro _ _ _ ⟨⟩

theorem bind {action : EStateM ε σ α} {next : α → EStateM ε σ β}
    (second : ∀ value, Returns property (next value)) :
    Returns property (action >>= next) := by
  intro before result after success
  obtain ⟨value, middle, _, rest⟩ := bind_eq_ok_iff.mp success
  exact second value middle result after rest

/-- What follows an action starts with a result of it. -/
theorem seq {earlier : α → Prop} {action : EStateM ε σ α}
    {next : α → EStateM ε σ β} (first : Returns earlier action)
    (second : ∀ value, earlier value → Returns property (next value)) :
    Returns property (action >>= next) := by
  intro before result after success
  obtain ⟨value, middle, given, rest⟩ := bind_eq_ok_iff.mp success
  exact second value (first before value middle given) middle result after
    rest

end Returns

/-! ## Simulation -/

/-- Where the first action succeeds in a wanted state, the second one succeeds
from any related state with the same result, and the states are related
again. -/
def Simulates (related : σ → σ → Prop) (wanted : σ → Prop)
    (first second : EStateM ε σ α) : Prop :=
  ∀ before other result after, related before other →
    first before = .ok result after → wanted after →
    ∃ further, second other = .ok result further ∧ related after further

namespace Simulates

variable {related : σ → σ → Prop} {wanted : σ → Prop}

theorem pure (result : α) :
    Simulates related wanted (Pure.pure result : EStateM ε σ α)
      (Pure.pure result) := by
  rintro _ other _ _ start ⟨⟩ _
  exact ⟨other, rfl, start⟩

theorem throw (failure otherFailure : ε) :
    Simulates related wanted (MonadExcept.throw failure : EStateM ε σ α)
      (MonadExcept.throw otherFailure) := by
  rintro _ _ _ _ _ ⟨⟩

/-- A state that leads to a wanted one must have been wanted, and what follows
starts only where the first action has succeeded. -/
theorem bind_of_ok
    {first second : EStateM ε σ α} {next further : α → EStateM ε σ β}
    (simulates : Simulates related wanted first second)
    (recalls : ∀ value,
      Moves (fun before after => wanted after → wanted before) (next value))
    (rest : ∀ value before middle, first before = .ok value middle →
      Simulates related wanted (next value) (further value)) :
    Simulates related wanted (first >>= next) (second >>= further) := by
  intro before other result after start success isWanted
  obtain ⟨value, middle, early, late⟩ := bind_eq_ok_iff.mp success
  have middleWanted := recalls value middle
  rw [late] at middleWanted
  obtain ⟨otherMiddle, otherEarly, met⟩ :=
    simulates before other value middle start early (middleWanted isWanted)
  obtain ⟨last, otherLate, ends⟩ := rest value before middle early middle
    otherMiddle result after met late isWanted
  exact ⟨last, bind_eq_ok_iff.mpr ⟨value, otherMiddle, otherEarly, otherLate⟩,
    ends⟩

theorem bind
    {first second : EStateM ε σ α} {next further : α → EStateM ε σ β}
    (simulates : Simulates related wanted first second)
    (recalls : ∀ value,
      Moves (fun before after => wanted after → wanted before) (next value))
    (rest : ∀ value,
      Simulates related wanted (next value) (further value)) :
    Simulates related wanted (first >>= next) (second >>= further) :=
  bind_of_ok simulates recalls fun value _ _ _ => rest value

end Simulates

/-! ## Mirroring -/

/-- Where the first action succeeds, the second one succeeds from any related
state with the changed result, and the states are related again. -/
def Mirrors (related : σ → σ → Prop) (change : α → β)
    (first : EStateM ε σ α) (second : EStateM ε σ β) : Prop :=
  ∀ before other result after, related before other →
    first before = .ok result after →
    ∃ further, second other = .ok (change result) further ∧
      related after further

namespace Mirrors

variable {related : σ → σ → Prop} {α' β' : Type} {change : β → β'}

theorem pure (result : β) :
    Mirrors related change (Pure.pure result : EStateM ε σ β)
      (Pure.pure (change result)) := by
  rintro _ other _ _ start ⟨⟩
  exact ⟨other, rfl, start⟩

theorem of_fails {first : EStateM ε σ β} {second : EStateM ε σ β'}
    (fails : Returns (fun _ => False) first) :
    Mirrors related change first second :=
  fun before _ result after _ success =>
    (fails before result after success).elim

theorem throw (failure : ε) (second : EStateM ε σ β') :
    Mirrors related change (MonadExcept.throw failure : EStateM ε σ β)
      second :=
  .of_fails (.throw failure)

theorem bind {between : α → α'} {first : EStateM ε σ α}
    {second : EStateM ε σ α'} {next : α → EStateM ε σ β}
    {further : α' → EStateM ε σ β'}
    (mirrors : Mirrors related between first second)
    (rest : ∀ value,
      Mirrors related change (next value) (further (between value))) :
    Mirrors related change (first >>= next) (second >>= further) := by
  intro before other result after start success
  obtain ⟨value, middle, early, late⟩ := bind_eq_ok_iff.mp success
  obtain ⟨otherMiddle, otherEarly, met⟩ :=
    mirrors before other value middle start early
  obtain ⟨last, otherLate, ends⟩ :=
    rest value middle otherMiddle result after met late
  exact ⟨last, bind_eq_ok_iff.mpr ⟨_, otherMiddle, otherEarly, otherLate⟩,
    ends⟩

theorem get {next : σ → EStateM ε σ β} {further : σ → EStateM ε σ β'}
    (rest : ∀ state other, related state other →
      Mirrors related change (next state) (further other)) :
    Mirrors related change (MonadState.get >>= next)
      (MonadState.get >>= further) :=
  fun before other result after start success =>
    rest before other start before other result after start success

theorem set {first second : σ} (same : related first second) :
    Mirrors related id (MonadStateOf.set first : EStateM ε σ PUnit)
      (MonadStateOf.set second) := by
  rintro _ _ _ _ _ ⟨⟩
  exact ⟨second, rfl, same⟩

theorem update {first second : σ → σ}
    (kept : ∀ state other, related state other →
      related (first state) (second other)) :
    Mirrors related id (modify first : EStateM ε σ Unit)
      (modify second) := by
  rintro before other _ _ start ⟨⟩
  exact ⟨second other, rfl, kept before other start⟩

theorem mapM {before : α → α'} {first : α → EStateM ε σ β}
    {second : α' → EStateM ε σ β'} (items : List α)
    (mirrors : ∀ item,
      Mirrors related change (first item) (second (before item))) :
    Mirrors related (List.map change) (items.mapM first)
      ((items.map before).mapM second) := by
  induction items with
  | nil => exact .pure []
  | cons item rest inductionHypothesis =>
      rw [List.map_cons, List.mapM_cons, List.mapM_cons]
      refine .bind (mirrors item) fun value => ?_
      exact .bind inductionHypothesis fun values => .pure (value :: values)

theorem arrayMapM {before : α → α'} {first : α → EStateM ε σ β}
    {second : α' → EStateM ε σ β'} (items : Array α)
    (mirrors : ∀ item,
      Mirrors related change (first item) (second (before item))) :
    Mirrors related (Array.map change) (items.mapM first)
      ((items.map before).mapM second) := by
  rw [Array.mapM_eq_mapM_toList, Array.mapM_eq_mapM_toList,
    map_eq_pure_bind, map_eq_pure_bind, Array.toList_map]
  refine .bind (mapM items.toList mirrors) fun values => ?_
  rw [← List.map_toArray]
  exact .pure values.toArray

end Mirrors

/-! ## Contracts -/

/-- The run of an action has ended with a result and in a state as `ends` says,
or with a failure and in a state as `fails` says. -/
def EndsIn (ends : α → σ → Prop) (fails : ε → σ → Prop) :
    EStateM.Result ε σ α → Prop
  | .ok result after => ends result after
  | .error failure after => fails failure after

theorem EndsIn.ok {ends : α → σ → Prop} {fails : ε → σ → Prop}
    {result : α} {after : σ} (done : ends result after) :
    EndsIn ends fails (.ok result after) :=
  done

theorem EndsIn.error {ends : α → σ → Prop} {fails : ε → σ → Prop}
    {failure : ε} {after : σ} (failed : fails failure after) :
    EndsIn ends fails (.error failure after) :=
  failed

theorem EndsIn.weaken {ends wider : α → σ → Prop}
    {fails failsOtherwise : ε → σ → Prop} {outcome : EStateM.Result ε σ α}
    (met : EndsIn ends fails outcome)
    (result : ∀ value state, ends value state → wider value state)
    (failure : ∀ reason state, fails reason state →
      failsOtherwise reason state) :
    EndsIn wider failsOtherwise outcome := by
  cases outcome with
  | ok value after => exact result value after met
  | error reason after => exact failure reason after met

/-- The action ends as agreed from every state with `holds`. -/
def Meets (holds : σ → Prop) (action : EStateM ε σ α)
    (ends : α → σ → Prop) (fails : ε → σ → Prop) : Prop :=
  ∀ before, holds before → EndsIn ends fails (action before)

namespace Meets

variable {holds : σ → Prop} {fails : ε → σ → Prop}

theorem of_ok {action : EStateM ε σ α} {ends : α → σ → Prop}
    (meets : Meets holds action ends fails) {before after : σ} {result : α}
    (here : holds before) (success : action before = .ok result after) :
    ends result after := by
  have met := meets before here
  rw [success] at met
  exact met

theorem of_error {action : EStateM ε σ α} {ends : α → σ → Prop}
    (meets : Meets holds action ends fails) {before after : σ} {failure : ε}
    (here : holds before) (failed : action before = .error failure after) :
    fails failure after := by
  have met := meets before here
  rw [failed] at met
  exact met

/-- Any failure may be agreed on. -/
theorem of_success {action : EStateM ε σ α} {ends : α → σ → Prop}
    (done : ∀ before result after, holds before →
      action before = .ok result after → ends result after) :
    Meets holds action ends fun _ _ => True := by
  intro before here
  cases outcome : action before with
  | ok result after => exact done before result after here outcome
  | error failure after => exact trivial

theorem pure {result : α} {ends : α → σ → Prop}
    (done : ∀ state, holds state → ends result state) :
    Meets holds (Pure.pure result) ends fails :=
  done

theorem throw {failure : ε} {ends : α → σ → Prop}
    (failed : ∀ state, holds state → fails failure state) :
    Meets holds (MonadExcept.throw failure) ends fails :=
  failed

theorem bind {action : EStateM ε σ α} {next : α → EStateM ε σ β}
    {between : α → σ → Prop} {ends : β → σ → Prop}
    (first : Meets holds action between fails)
    (second : ∀ value, Meets (between value) (next value) ends fails) :
    Meets holds (action >>= next) ends fails := by
  intro before here
  cases outcome : action before with
  | ok value middle =>
      rw [bind_of_eq_ok outcome]
      exact second value middle (first.of_ok here outcome)
  | error failure middle =>
      rw [bind_of_eq_error outcome]
      exact first.of_error here outcome

theorem get {next : σ → EStateM ε σ β} {ends : β → σ → Prop}
    (rest : ∀ state, holds state →
      Meets (· = state) (next state) ends fails) :
    Meets holds (MonadState.get >>= next) ends fails := by
  intro before here
  rw [get_bind]
  exact rest before here before rfl

theorem change {update : σ → σ} {ends : Unit → σ → Prop}
    (changed : ∀ state, holds state → ends () (update state)) :
    Meets holds (modify update) ends fails :=
  changed

theorem mono {action : EStateM ε σ α} {stronger : σ → Prop}
    {ends wider : α → σ → Prop} {failsOtherwise : ε → σ → Prop}
    (meets : Meets holds action ends fails)
    (assume : ∀ state, stronger state → holds state)
    (result : ∀ value state, ends value state → wider value state)
    (failure : ∀ failure state, fails failure state →
      failsOtherwise failure state) :
    Meets stronger action wider failsOtherwise :=
  fun before here => (meets before (assume before here)).weaken result failure

end Meets

/-- The action keeps `holds` where it succeeds and fails as `fails` says. -/
abbrev Abides (holds : σ → Prop) (fails : ε → σ → Prop)
    (action : EStateM ε σ α) : Prop :=
  Meets holds action (fun _ => holds) fails

theorem Meets.forM {holds : σ → Prop} {fails : ε → σ → Prop}
    {items : List α} {action : α → EStateM ε σ Unit}
    (each : ∀ item ∈ items, Abides holds fails (action item)) :
    Abides holds fails (items.forM action) := by
  induction items with
  | nil => exact .pure fun _ here => here
  | cons item items inductionHypothesis =>
      exact (each item List.mem_cons_self).bind fun _ =>
        inductionHypothesis fun other member =>
          each other (List.mem_cons_of_mem _ member)

/-! ## Failures of outcomes -/

/-- Every failure of an outcome has the property. -/
def Rejects (property : ε → Prop) (outcome : Except ε α) : Prop :=
  ∀ failure, outcome = .error failure → property failure

namespace Rejects

variable {property : ε → Prop}

theorem ok (result : α) : Rejects property (.ok result : Except ε α) := by
  rintro _ ⟨⟩

theorem error {failure : ε} (holds : property failure) :
    Rejects property (.error failure : Except ε α) := by
  rintro _ ⟨⟩
  exact holds

theorem bind {outcome : Except ε α} {next : α → Except ε β}
    (first : Rejects property outcome)
    (second : ∀ value, outcome = .ok value →
      Rejects property (next value)) :
    Rejects property (outcome >>= next) := by
  cases outcome with
  | error failure =>
      rintro _ ⟨⟩
      exact first failure rfl
  | ok value => exact second value rfl

theorem mapError {ε' : Type} {change : ε' → ε} {outcome : Except ε' α}
    (changed : ∀ failure, outcome = .error failure →
      property (change failure)) :
    Rejects property (outcome.mapError change) := by
  cases outcome with
  | error failure =>
      rintro _ ⟨⟩
      exact changed failure rfl
  | ok value =>
      rintro _ ⟨⟩

theorem map {change : α → β} {outcome : Except ε α}
    (rejects : Rejects property outcome) :
    Rejects property (outcome.map change) := by
  cases outcome with
  | error failure =>
      rintro _ ⟨⟩
      exact rejects failure rfl
  | ok value =>
      rintro _ ⟨⟩

end Rejects

/-! ## Outcomes that are carried over -/

/-- Where the first outcome is a result, the second one is the changed result. -/
def Carries {ε' : Type} (change : α → β)
    (first : Except ε α) (second : Except ε' β) : Prop :=
  ∀ result, first = .ok result → second = .ok (change result)

namespace Carries

variable {ε' α' β' : Type} {change : β → β'}

theorem ok (result : β) :
    Carries change (.ok result : Except ε β)
      (.ok (change result) : Except ε' β') := by
  rintro _ ⟨⟩
  rfl

theorem error (failure : ε) (second : Except ε' β') :
    Carries change (.error failure : Except ε β) second := by
  rintro _ ⟨⟩

theorem refl (outcome : Except ε β) : Carries id outcome outcome :=
  fun _ success => success

theorem of_eq {first second : Except ε β} (same : second = first) :
    Carries id first second := by
  rw [same]
  exact refl first

theorem of_map {change : α → β} {first : Except ε α} {second : Except ε β}
    (same : second = first.map change) : Carries change first second := by
  rintro result rfl
  exact same

theorem bind {between : α → α'} {first : Except ε α}
    {second : Except ε' α'} {next : α → Except ε β}
    {further : α' → Except ε' β'} (carries : Carries between first second)
    (rest : ∀ value, Carries change (next value) (further (between value))) :
    Carries change (first >>= next) (second >>= further) := by
  intro result success
  obtain ⟨value, early, late⟩ := except_bind_eq_ok_iff.mp success
  have carried := rest value result late
  rw [except_bind_of_eq_ok (carries value early)]
  exact carried

theorem mapError {first second : Except ε β} {failures : ε → ε'}
    {otherFailures : ε → ε'} {change : β → β}
    (carries : Carries change first second) :
    Carries change (first.mapError failures)
      (second.mapError otherFailures) := by
  intro result success
  have early := mapError_eq_ok_iff.mp success
  exact mapError_eq_ok_iff.mpr (carries result early)

theorem mapM {first second : α → Except ε β} (items : List α)
    (carries : ∀ item, Carries id (first item) (second item)) :
    Carries id (items.mapM first) (items.mapM second) := by
  induction items with
  | nil => exact .refl _
  | cons item rest inductionHypothesis =>
      rw [List.mapM_cons, List.mapM_cons]
      refine .bind (carries item) fun value => ?_
      exact .bind inductionHypothesis fun values => .refl _

theorem foldlM {between : β → β'} {first : β → α → Except ε β}
    {second : β' → α → Except ε' β'}
    (carries : ∀ state item,
      Carries between (first state item) (second (between state) item))
    (items : List α) (state : β) :
    Carries between (items.foldlM first state)
      (items.foldlM second (between state)) := by
  induction items generalizing state with
  | nil => exact .ok state
  | cons item rest inductionHypothesis =>
      rw [List.foldlM_cons, List.foldlM_cons]
      exact .bind (carries state item) inductionHypothesis

end Carries

end PickleGraph.Actions
