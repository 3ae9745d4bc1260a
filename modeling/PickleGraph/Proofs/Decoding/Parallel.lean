import PickleGraph.Proofs.Heap.Growth
import PickleGraph.Proofs.Reader

/-!
# Parallel decoding actions

Most decoding actions are put together from a few elementary ones: they read,
make data in the heap, ask for the place of the reader, and fail. Two actions
are parallel if they are put together in the same way and differ at most in the
places and the causes of their failures. What holds of the elementary actions
and is kept by sequencing then holds of every action that is parallel to some
action, itself for the most part.
-/

namespace PickleGraph.Decoding

open Actions

/-! ## Successful actions -/

section Success

variable {α : Type} {source after : Source} {result : α}

theorem reading_eq_ok_iff {action : Reading α} :
    reading action source = .ok result after ↔
      ∃ reader, action source.reader = .ok result reader ∧
        after = { source with reader } := by
  unfold reading
  cases action source.reader with
  | ok value reader =>
      constructor
      · rintro ⟨⟩
        exact ⟨reader, rfl, rfl⟩
      · rintro ⟨_, ⟨⟩, rfl⟩
        rfl
  | error failure reader => simp

theorem build_eq_ok_iff {change : Heap → Except Failure (α × Heap)} :
    build change source = .ok result after ↔
      ∃ heap, change source.heap = .ok (result, heap) ∧
        after = { source with heap } := by
  unfold build
  cases change source.heap with
  | ok made =>
      constructor
      · rintro ⟨⟩
        exact ⟨_, rfl, rfl⟩
      · rintro ⟨_, ⟨⟩, rfl⟩
        rfl
  | error failure => simp

theorem onReader_eq_ok_iff {action : Decoding α} {reader : Reader} :
    onReader reader action source = .ok result after ↔
      ∃ further, action { source with reader } = .ok result further ∧
        after = { further with reader := source.reader } := by
  unfold onReader
  cases action { source with reader } with
  | ok value further =>
      constructor
      · rintro ⟨⟩
        exact ⟨further, rfl, rfl⟩
      · rintro ⟨_, ⟨⟩, rfl⟩
        rfl
  | error failure further => simp

theorem mapFailure_eq_ok_iff {change : Failure → Failure}
    {action : Decoding α} :
    mapFailure change action source = .ok result after ↔
      action source = .ok result after := by
  unfold mapFailure
  cases action source with
  | ok value middle => rfl
  | error failure middle => simp

end Success

/-! ## Parallel actions -/

/-- Two actions with the same structure, around two decoders for the pickles
inside. The place of a reader may decide only how an action fails. -/
inductive Parallel (nested other : Decoding Value) :
    {α : Type} → Decoding α → Decoding α → Prop
  | pure {α : Type} (result : α) :
      Parallel nested other (Pure.pure result) (Pure.pure result)
  | throw {α : Type} (failure otherFailure : Failure) :
      Parallel nested other (α := α) (MonadExcept.throw failure)
        (MonadExcept.throw otherFailure)
  | bind {α β : Type} {first second : Decoding α}
      {next further : α → Decoding β} :
      Parallel nested other first second →
      (∀ value, Parallel nested other (next value) (further value)) →
      Parallel nested other (first >>= next) (second >>= further)
  | tell {α : Type} {next further : Option Nat → Decoding α} :
      (∀ place otherPlace,
        Parallel nested other (next place) (further otherPlace)) →
      Parallel nested other (tell? >>= next) (tell? >>= further)
  | read (count : Nat) :
      Parallel nested other (Decoding.read count) (Decoding.read count)
  | readLine :
      Parallel nested other Decoding.readLine Decoding.readLine
  | build {α : Type} {change : Heap → Except Failure (α × Heap)} :
      (∀ heap, Heap.GrowsTo Object.IsData heap (change heap)) →
      Parallel nested other (Decoding.build change) (Decoding.build change)
  | mapFailure {α : Type} {first second : Decoding α}
      (change otherChange : Failure → Failure) :
      Parallel nested other first second →
      Parallel nested other (Decoding.mapFailure change first)
        (Decoding.mapFailure otherChange second)
  | onReader {α : Type} {action : Decoding α} (reader : Reader) :
      Parallel nested other action action →
      Parallel nested other (Decoding.onReader reader action)
        (Decoding.onReader reader action)
  | nested : Parallel nested other nested other

/-! ## Questions about the heap -/

theorem heap_eq_build :
    Decoding.heap = Decoding.build fun heap => .ok (heap, heap) :=
  rfl

theorem query_eq_build {α : Type} (answer : Heap → Except Failure α) :
    query answer =
      Decoding.build fun heap => (answer heap).map (·, heap) := by
  funext source
  simp only [query, Decoding.build]
  cases answer source.heap with
  | ok result => rfl
  | error failure => rfl

theorem ask_eq_query {α : Type} (answer : Heap → Except Refusal α) :
    ask answer = query fun heap => (answer heap).mapError .refused := by
  funext source
  simp only [ask, query]
  cases answer source.heap with
  | ok result => rfl
  | error refusal => rfl

theorem alloc_eq_build (object : Object) :
    Decoding.alloc object =
      Decoding.build fun heap => .ok (heap.alloc object) :=
  rfl

namespace Parallel

variable {nested other : Decoding Value}

theorem heap : Parallel nested other Decoding.heap Decoding.heap := by
  rw [heap_eq_build]
  exact .build fun heap => .same heap

theorem query {α : Type} (answer : Heap → Except Failure α) :
    Parallel nested other (Decoding.query answer)
      (Decoding.query answer) := by
  rw [query_eq_build]
  refine .build fun heap => ?_
  cases answer heap with
  | ok result => exact .same result
  | error failure => exact .error

theorem ask {α : Type} (answer : Heap → Except Refusal α) :
    Parallel nested other (Decoding.ask answer) (Decoding.ask answer) := by
  rw [ask_eq_query]
  exact query _

theorem alloc {object : Object} (isData : object.IsData) :
    Parallel nested other (Decoding.alloc object)
      (Decoding.alloc object) := by
  rw [alloc_eq_build]
  exact .build fun heap => .ok (.alloc heap isData)

theorem make {α : Type} {change : Heap → Except Refusal (α × Heap)}
    (grows : ∀ heap, Heap.GrowsTo Object.IsData heap (change heap)) :
    Parallel nested other (Decoding.make change) (Decoding.make change) :=
  .build fun heap => .mapError _ (grows heap)

theorem mapM {α β : Type} {first second : α → Decoding β}
    (items : List α)
    (parallel : ∀ item, Parallel nested other (first item) (second item)) :
    Parallel nested other (items.mapM first) (items.mapM second) := by
  induction items with
  | nil => exact .pure []
  | cons item rest inductionHypothesis =>
      rw [List.mapM_cons, List.mapM_cons]
      refine .bind (parallel item) fun value => ?_
      exact .bind inductionHypothesis fun values => .pure _

theorem arrayMapM {α β : Type} {first second : α → Decoding β}
    (items : Array α)
    (parallel : ∀ item, Parallel nested other (first item) (second item)) :
    Parallel nested other (items.mapM first) (items.mapM second) := by
  rw [Array.mapM_eq_mapM_toList, Array.mapM_eq_mapM_toList,
    map_eq_pure_bind, map_eq_pure_bind]
  exact .bind (mapM items.toList parallel) fun values => .pure _

end Parallel

/-! ## Direct actions -/

/-- An action that reads and computes. It has no use for the heap and does not
ask for its place. -/
inductive Direct : {α : Type} → Decoding α → Prop
  | pure {α : Type} (result : α) : Direct (Pure.pure result)
  | throw {α : Type} (failure : Failure) :
      Direct (α := α) (MonadExcept.throw failure)
  | bind {α β : Type} {action : Decoding α} {next : α → Decoding β} :
      Direct action → (∀ value, Direct (next value)) →
      Direct (action >>= next)
  | read (count : Nat) : Direct (Decoding.read count)
  | readLine : Direct Decoding.readLine
  | answer {α : Type} (outcome : Except Failure α) :
      Direct (Decoding.query fun _ => outcome)

theorem Direct.parallel {nested other : Decoding Value} {α : Type}
    {action : Decoding α} (direct : Direct action) :
    Parallel nested other action action := by
  induction direct with
  | pure result => exact .pure result
  | throw failure => exact .throw failure failure
  | bind _ _ action next => exact .bind action next
  | read count => exact .read count
  | readLine => exact .readLine
  | answer outcome => exact .query _

/-! ## Relations between sources -/

/-- A relation that holds along reading and along the growth of data. -/
structure Admits (relation : Source → Source → Prop) : Prop where
  reading : ∀ (source : Source) (reader : Reader),
    source.reader.ReadOn reader → relation source { source with reader }
  growing : ∀ (source : Source) (heap : Heap),
    source.heap.Grows Object.IsData heap →
      relation source { source with heap }
  apart : ∀ (source : Source) (reader : Reader) (after : Source),
    relation { source with reader } after →
      relation source { after with reader := source.reader }

theorem moves_reading
    {relation : Source → Source → Prop}
    (admits : Admits relation) {action : Reading Bytes}
    (spent : ∀ reader : Reader, reader.SpentBy (action reader)) :
    Moves relation (reading action) := by
  intro source
  have spent := spent source.reader
  unfold reading
  split
  · next outcome =>
      rw [outcome] at spent
      exact admits.reading source _ spent.readOn
  · next outcome =>
      rw [outcome] at spent
      exact admits.reading source _ spent

section Moves

variable {relation : Source → Source → Prop} [IsPreorder Source relation]

theorem moves_build {α : Type}
    (holds : ∀ source heap, source.heap.Grows Object.IsData heap →
      relation source { source with heap })
    {change : Heap → Except Failure (α × Heap)}
    (grows : ∀ heap, Heap.GrowsTo Object.IsData heap (change heap)) :
    Moves relation (Decoding.build change) := by
  intro source
  unfold Decoding.build
  split
  · next outcome =>
      exact holds source _ (grows source.heap _ _ outcome)
  · exact refl_of relation source

/-- An action with a parallel moves along every relation that admits reading
and growth, if the decoder of the pickles inside does. -/
theorem Parallel.moves
    (admits : Admits relation) {nested other : Decoding Value}
    (nestedMoves : Moves relation nested)
    {α : Type} {first second : Decoding α}
    (parallel : Parallel nested other first second) :
    Moves relation first := by
  induction parallel with
  | pure result => exact .pure result
  | throw failure otherFailure => exact .throw failure
  | bind _ _ firstMoves nextMoves => exact .bind firstMoves nextMoves
  | tell _ nextMoves =>
      refine .bind (fun source => refl_of relation source) fun place => ?_
      exact nextMoves place none
  | read count =>
      exact moves_reading admits fun reader => reader.read_spent count
  | readLine => exact moves_reading admits Reader.readLine_spent
  | build grows => exact moves_build admits.growing grows
  | @mapFailure _ action _ change _ _ actionMoves =>
      intro source
      have moved := actionMoves source
      unfold Decoding.mapFailure
      split <;> next outcome =>
        rw [outcome] at moved
        exact moved
  | @onReader _ action reader _ actionMoves =>
      intro source
      have moved := actionMoves { source with reader }
      unfold Decoding.onReader
      split <;> next outcome =>
        rw [outcome] at moved
        exact admits.apart source reader _ moved
  | nested => exact nestedMoves

end Moves

end PickleGraph.Decoding
