import Mathlib.Data.List.Forall2
import PickleGraph.Proofs.Plain.Scalar
import PickleGraph.Proofs.Value.Key

/-!
# Graphs of objects

The nodes of a graph are lists and mappings, which can be told apart and can
hold each other and themselves. Tuples and scalars have no identity and belong
to what holds them, so a cycle always passes through a node.

A node is written where it is met first: an empty container, which is bound to
an unused slot of the memo before it is filled. Wherever the node is met again,
the slot is fetched. Numbers of slots are chosen freely, or they count up.

The keys of a mapping are scalars that are not equal, and they are decoded to
keys that do not match. Two NaNs are never equal, and they are told apart by the
marks they get one after the other.
-/

namespace PickleGraph

/-! ## Distinct keys -/

namespace Scalar

/-- Equality of scalars as keys: numbers are compared by value, and a NaN equals
nothing. -/
def equals (left right : Scalar) : Bool :=
  match left.key?, right.key? with
  | some key, some other => key.matchesKey other
  | _, _ => Bool.false

/-- Scalars of which none equals a later one. -/
def Distinct (keys : List Scalar) : Prop :=
  keys.Pairwise fun earlier later => earlier.equals later = Bool.false

/-! ## Numbers that are no numbers -/

theorem equals_nan_left {number : Binary64} (other : Binary64)
    (isNaN : number.isNaN = Bool.true) :
    number.equals other = Bool.false := by
  simp [Binary64.equals, isNaN]

theorem equals_nan_right {number : Binary64} (other : Binary64)
    (isNaN : number.isNaN = Bool.true) :
    other.equals number = Bool.false := by
  simp [Binary64.equals, isNaN]

theorem equalsInt_nan {number : Binary64} (other : Int)
    (isNaN : number.isNaN = Bool.true) :
    number.equalsInt other = Bool.false := by
  have infinite : number.isFinite = Bool.false := by
    simp only [Binary64.isNaN, Bool.and_eq_true, decide_eq_true_eq] at isNaN
    simp [Binary64.isFinite, isNaN.1]
  simp [Binary64.equalsInt, infinite]

/-- A scalar is a key, or it is a NaN. -/
theorem key?_eq_none_iff {scalar : Scalar} :
    scalar.key? = Option.none ↔
      ∃ number, scalar = .float number ∧ number.isNaN = Bool.true := by
  cases scalar with
  | float number =>
      rw [key?]
      split
      · next isNaN => exact ⟨fun _ => ⟨number, rfl, isNaN⟩, fun _ => rfl⟩
      · next noNaN =>
          constructor
          · intro isNone
            cases isNone
          · rintro ⟨_, same, isNaN⟩
            cases same
            exact absurd isNaN noNaN
  | _ => simp [key?]

theorem matchesKey_nan_left {number : Binary64} {mark : Nat}
    {scalar : Scalar} {value : Value} (isNaN : number.isNaN = Bool.true)
    (same : scalar.Is value)
    (ordered : ∀ other, nanMark? value = some other → mark < other) :
    (Value.float number mark).matchesKey value = Bool.false := by
  cases scalar with
  | float other =>
      obtain ⟨otherMark, rfl, _⟩ := same
      have different : ¬ (mark = otherMark ∧ number = other) := by
        rintro ⟨rfl, rfl⟩
        exact Nat.lt_irrefl _ (ordered mark (by simp [nanMark?, isNaN]))
      simp [Value.matchesKey, Value.matchesLeaf, Value.plain, Value.number?,
        Number.equals, Number.realEquals, Value.matchesLeaf.sameMark,
        equals_nan_left other isNaN]
      grind
  | _ =>
      cases same
      simp [Value.matchesKey, Value.matchesLeaf, Value.plain, Value.number?,
        Number.equals, Number.realEquals, Value.matchesLeaf.sameMark,
        equalsInt_nan _ isNaN]

theorem matchesKey_nan_right {number : Binary64} {mark : Nat}
    {scalar : Scalar} {key : Value} (isNaN : number.isNaN = Bool.true)
    (isKey : scalar.key? = some key) :
    key.matchesKey (.float number mark) = Bool.false := by
  cases scalar with
  | float other =>
      rw [key?] at isKey
      split at isKey
      · cases isKey
      · cases isKey
        simp [Value.matchesKey, Value.matchesLeaf, Value.plain,
          Value.number?, Number.equals, Number.realEquals,
          Value.matchesLeaf.sameMark, equals_nan_right other isNaN]
  | _ =>
      cases isKey
      simp [Value.matchesKey, Value.matchesLeaf, Value.plain, Value.number?,
        Number.equals, Value.matchesLeaf.sameMark, equalsInt_nan _ isNaN]

/-! ## Keys that are apart -/

theorem matchesKey_of_not_equals {first second : Scalar}
    {key other : Value} (different : first.equals second = Bool.false)
    (same : first.Is key) (otherSame : second.Is other)
    (ordered : ∀ mark otherMark, nanMark? key = some mark →
      nanMark? other = some otherMark → mark < otherMark) :
    key.matchesKey other = Bool.false := by
  cases isKey : first.key? with
  | none =>
      obtain ⟨number, rfl, isNaN⟩ := key?_eq_none_iff.mp isKey
      obtain ⟨mark, rfl, _⟩ := same
      exact matchesKey_nan_left isNaN otherSame fun otherMark marked =>
        ordered mark otherMark (by simp [nanMark?, isNaN]) marked
  | some value =>
      obtain rfl := same.eq_of_key? isKey
      cases isOtherKey : second.key? with
      | none =>
          obtain ⟨number, rfl, isNaN⟩ := key?_eq_none_iff.mp isOtherKey
          obtain ⟨mark, rfl, _⟩ := otherSame
          exact matchesKey_nan_right isNaN isKey
      | some otherValue =>
          obtain rfl := otherSame.eq_of_key? isOtherKey
          rwa [equals, isKey, isOtherKey] at different

/-- Distinct scalars whose NaNs are marked in turn are apart as keys. -/
theorem apart_of_distinct {keys : List Scalar} {values : List Value}
    {low high : Nat} (distinct : Distinct keys)
    (shown : List.Forall₂ Scalar.Is keys values)
    (marked : Marked low high values) : Value.Apart values := by
  induction shown with
  | nil => exact .nil
  | @cons key value keys values same rest inductionHypothesis =>
      obtain ⟨first, others⟩ := List.pairwise_cons.mp distinct
      have tail := inductionHypothesis others
        (marked.sublist (List.sublist_cons_self value values))
      refine List.pairwise_cons.mpr ⟨fun other member => ?_, tail⟩
      obtain ⟨index, bound, rfl⟩ := List.getElem_of_mem member
      have otherBound : index < keys.length := rest.length_eq ▸ bound
      have otherSame : keys[index].Is values[index] :=
        List.Forall₂.get rest otherBound bound
      refine matchesKey_of_not_equals
        (first _ (List.getElem_mem otherBound)) same otherSame ?_
      intro mark otherMark isMark isOtherMark
      have increasing := marked.increasing
      rw [List.filterMap_cons, isMark] at increasing
      exact (List.pairwise_cons.mp increasing).1 otherMark
        (List.mem_filterMap.mpr ⟨_, member, isOtherMark⟩)

/-- Every scalar can be a key of a mapping. -/
theorem Is.checkHashable {scalar : Scalar} {value : Value} (heap : Heap)
    (same : scalar.Is value) : heap.checkHashable value = .ok () := by
  cases scalar with
  | float number =>
      obtain ⟨mark, rfl, _⟩ := same
      rfl
  | _ =>
      cases same
      rfl

end Scalar

/-! ## Graphs -/

/-- What a container holds: scalars, tuples of items, and nodes by name. -/
inductive Item (ι : Type)
  | scalar (content : Scalar)
  | tuple (items : List (Item ι))
  | node (name : ι)

inductive Node (ι : Type)
  | list (items : List (Item ι))
  | dict (entries : List (Scalar × Item ι))
      (distinct : Scalar.Distinct (entries.map (·.1)))

structure Graph (ι : Type) where
  node : ι → Node ι
  root : Item ι

variable {ι : Type}

/-! ## Paths -/

/-- A path is given by the positions of the items that it passes. -/
abbrev Path := List Nat

namespace Graph

def child? (graph : Graph ι) (position : Nat) : Item ι → Option (Item ι)
  | .scalar _ => none
  | .tuple items => items[position]?
  | .node name =>
      match graph.node name with
      | .list items => items[position]?
      | .dict entries _ => entries[position]?.map (·.2)

/-- The item at the end of a path. -/
def follow (graph : Graph ι) : Path → Item ι → Option (Item ι)
  | [], item => some item
  | position :: rest, item =>
      (graph.child? position item).bind (graph.follow rest)

/-- A path leads from the root to the node. -/
def Reaches (graph : Graph ι) (name : ι) : Prop :=
  ∃ path, graph.follow path graph.root = some (.node name)

end Graph

namespace Heap

def child? (heap : Heap) (position : Nat) : Value → Option Value
  | .tuple items => items[position]?
  | .object address =>
      match heap.get address with
      | .list items => items[position]?
      | .dict _ entries => entries[position]?.map (·.2)
      | _ => none
  | _ => none

/-- The value at the end of a path. -/
def follow (heap : Heap) : Path → Value → Option Value
  | [], value => some value
  | position :: rest, value =>
      (heap.child? position value).bind (heap.follow rest)

end Heap

/-! ## Graphs in a heap -/

variable (stands : ι → Address → Prop)

mutual

/-- Whether a value shows an item, where `stands` tells which node stands at
which address. -/
def Item.ShownBy : Item ι → Value → Prop
  | .scalar content, value => content.Is value
  | .tuple items, value =>
      ∃ values, value = .tuple values ∧ Item.AllShownBy items values
  | .node name, value =>
      ∃ address, stands name address ∧ value = .object address

def Item.AllShownBy : List (Item ι) → List Value → Prop
  | [], values => values = []
  | item :: items, values =>
      ∃ value others, values = value :: others ∧
        Item.ShownBy item value ∧ Item.AllShownBy items others

end

/-- Whether a pair of values shows an entry. -/
def EntryShownBy (entry : Scalar × Item ι) (pair : Value × Value) : Prop :=
  entry.1.Is pair.1 ∧ entry.2.ShownBy stands pair.2

/-- Whether an address holds an object with the contents of a node. -/
def Node.ShownAt (heap : Heap) (address : Address) : Node ι → Prop
  | .list items =>
      ∃ array, heap.get address = .list array ∧
        Item.AllShownBy stands items array.toList
  | .dict entries _ =>
      ∃ pairs, heap.get address = .dict false pairs ∧
        List.Forall₂ (EntryShownBy stands) entries pairs

/-- A value of a heap is the root of a copy of the graph: every node that the
root reaches has an address of its own, at which there is an object with the
contents of the node. -/
structure Graph.CopiedTo (graph : Graph ι) (heap : Heap) (value : Value)
    (place : ι → Address) : Prop where
  root : graph.root.ShownBy (fun name address => place name = address) value
  node : ∀ name, graph.Reaches name →
    (graph.node name).ShownAt (fun name address => place name = address)
      heap (place name)
  injective : ∀ name other, graph.Reaches name → graph.Reaches other →
    place name = place other → name = other

/-! ## What is shown -/

variable {stands} {other : ι → Address → Prop}

mutual

theorem Item.ShownBy.mono {item : Item ι} {value : Value}
    (shown : item.ShownBy stands value)
    (weaker : ∀ name address, stands name address → other name address) :
    item.ShownBy other value := by
  cases item with
  | scalar content => exact shown
  | tuple items =>
      obtain ⟨values, rfl, items⟩ := shown
      exact ⟨values, rfl, items.mono weaker⟩
  | node name =>
      obtain ⟨address, here, rfl⟩ := shown
      exact ⟨address, weaker name address here, rfl⟩

theorem Item.AllShownBy.mono {items : List (Item ι)} {values : List Value}
    (shown : Item.AllShownBy stands items values)
    (weaker : ∀ name address, stands name address → other name address) :
    Item.AllShownBy other items values := by
  cases items with
  | nil => exact shown
  | cons item items =>
      obtain ⟨value, others, rfl, first, rest⟩ := shown
      exact ⟨value, others, rfl, first.mono weaker, rest.mono weaker⟩

end

theorem Node.ShownAt.mono {heap after : Heap} {address : Address}
    {node : Node ι} (shown : node.ShownAt stands heap address)
    (same : after.get address = heap.get address)
    (weaker : ∀ name address, stands name address → other name address) :
    node.ShownAt other after address := by
  cases node with
  | list items =>
      obtain ⟨array, here, items⟩ := shown
      exact ⟨array, same.trans here, items.mono weaker⟩
  | dict entries distinct =>
      obtain ⟨pairs, here, entries⟩ := shown
      exact ⟨pairs, same.trans here, entries.imp fun _ _ entryShown =>
        ⟨entryShown.1, entryShown.2.mono weaker⟩⟩

theorem Item.allShownBy_iff {items : List (Item ι)} {values : List Value} :
    Item.AllShownBy stands items values ↔
      List.Forall₂ (Item.ShownBy stands) items values := by
  induction items generalizing values with
  | nil => exact List.forall₂_nil_left_iff.symm
  | cons item items inductionHypothesis =>
      rw [List.forall₂_cons_left_iff]
      constructor
      · rintro ⟨value, others, rfl, first, rest⟩
        exact ⟨value, others, first, inductionHypothesis.mp rest, rfl⟩
      · rintro ⟨value, others, first, rest, rfl⟩
        exact ⟨value, others, rfl, first, inductionHypothesis.mpr rest⟩

/-! ## Paths in the copy -/

theorem rel_getElem? {α β : Type} {relation : α → β → Prop}
    {items : List α} {others : List β}
    (related : List.Forall₂ relation items others) (position : Nat) :
    Option.Rel relation items[position]? others[position]? := by
  induction related generalizing position with
  | nil => exact .none
  | cons first rest inductionHypothesis =>
      cases position with
      | zero => exact .some first
      | succ position =>
          rw [List.getElem?_cons_succ, List.getElem?_cons_succ]
          exact inductionHypothesis position

theorem rel_map {α β γ δ : Type} {relation : α → β → Prop}
    {further : γ → δ → Prop} {first : Option α} {second : Option β}
    {change : α → γ} {otherChange : β → δ}
    (related : Option.Rel relation first second)
    (step : ∀ value other, relation value other →
      further (change value) (otherChange other)) :
    Option.Rel further (first.map change) (second.map otherChange) := by
  cases related with
  | none => exact .none
  | some related => exact .some (step _ _ related)

theorem rel_bind {α β γ δ : Type} {relation : α → β → Prop}
    {further : γ → δ → Prop} {first : Option α} {second : Option β}
    {next : α → Option γ} {otherNext : β → Option δ}
    (related : Option.Rel relation first second)
    (step : ∀ value other, first = some value → relation value other →
      Option.Rel further (next value) (otherNext other)) :
    Option.Rel further (first.bind next) (second.bind otherNext) := by
  cases related with
  | none => exact .none
  | some related => exact step _ _ rfl related

namespace Graph

variable {graph : Graph ι} {heap : Heap}

/-- The children of an item and of the value that shows it correspond. -/
theorem rel_child? {item : Item ι} {value : Value}
    (nodes : ∀ name address, item = .node name → stands name address →
      (graph.node name).ShownAt stands heap address)
    (shown : item.ShownBy stands value) (position : Nat) :
    Option.Rel (Item.ShownBy stands) (graph.child? position item)
      (heap.child? position value) := by
  cases item with
  | scalar content =>
      have leaf : heap.child? position value = none := by
        cases content with
        | float number =>
            obtain ⟨mark, rfl, _⟩ := shown
            rfl
        | _ =>
            cases shown
            rfl
      rw [leaf]
      exact .none
  | tuple items =>
      obtain ⟨values, rfl, items⟩ := shown
      exact rel_getElem? (Item.allShownBy_iff.mp items) position
  | node name =>
      obtain ⟨address, here, rfl⟩ := shown
      have contents := nodes name address rfl here
      unfold child? Heap.child?
      cases kind : graph.node name with
      | list items =>
          rw [kind] at contents
          obtain ⟨array, held, items⟩ := contents
          simp only [kind, held]
          rw [← Array.getElem?_toList]
          exact rel_getElem? (Item.allShownBy_iff.mp items) position
      | dict entries distinct =>
          rw [kind] at contents
          obtain ⟨pairs, held, entries⟩ := contents
          simp only [kind, held]
          exact rel_map (rel_getElem? entries position)
            fun _ _ entryShown => entryShown.2

/-- A path leads through the copy as it leads through the graph. -/
theorem rel_follow {item : Item ι} {value : Value}
    (nodes : ∀ path name address,
      graph.follow path item = some (.node name) → stands name address →
        (graph.node name).ShownAt stands heap address)
    (shown : item.ShownBy stands value) (path : Path) :
    Option.Rel (Item.ShownBy stands) (graph.follow path item)
      (heap.follow path value) := by
  induction path generalizing item value with
  | nil => exact .some shown
  | cons position rest inductionHypothesis =>
      have related := rel_child?
        (fun name address same => nodes [] name address (congrArg some same))
        shown position
      refine rel_bind related fun child childValue found childShown => ?_
      refine inductionHypothesis (fun path name address led => ?_) childShown
      refine nodes (position :: path) name address ?_
      unfold follow
      rw [found]
      exact led

variable {value : Value} {place : ι → Address}

theorem CopiedTo.rel_follow (copied : graph.CopiedTo heap value place)
    (path : Path) :
    Option.Rel (Item.ShownBy fun name address => place name = address)
      (graph.follow path graph.root) (heap.follow path value) := by
  refine Graph.rel_follow (fun path name address led here => ?_) copied.root
    path
  rw [← here]
  exact copied.node name ⟨path, led⟩

/-- Two paths through a copy end at one object exactly if they end at one node of
the graph. -/
theorem CopiedTo.sameEnd_iff (copied : graph.CopiedTo heap value place)
    (path other : Path) :
    (∃ address, heap.follow path value = some (.object address) ∧
        heap.follow other value = some (.object address)) ↔
      ∃ name, graph.follow path graph.root = some (.node name) ∧
        graph.follow other graph.root = some (.node name) := by
  have nodeOf : ∀ {path : Path} {address : Address},
      heap.follow path value = some (.object address) →
        ∃ name, graph.follow path graph.root = some (.node name) ∧
          place name = address := by
    intro path address led
    have related := copied.rel_follow path
    rw [led] at related
    generalize graph.follow path graph.root = found at related ⊢
    cases related with
    | @some item _ shown =>
        cases item with
        | scalar content => exact absurd shown (Scalar.not_is_object content)
        | tuple items =>
            obtain ⟨_, same, _⟩ := shown
            cases same
        | node name =>
            obtain ⟨_, here, same⟩ := shown
            cases same
            exact ⟨name, rfl, here⟩
  constructor
  · rintro ⟨address, led, otherLed⟩
    obtain ⟨name, found, here⟩ := nodeOf led
    obtain ⟨otherName, otherFound, otherHere⟩ := nodeOf otherLed
    obtain rfl := copied.injective name otherName ⟨path, found⟩
      ⟨other, otherFound⟩ (here.trans otherHere.symm)
    exact ⟨name, found, otherFound⟩
  · rintro ⟨name, found, otherFound⟩
    have objectAt : ∀ {path : Path},
        graph.follow path graph.root = some (.node name) →
          heap.follow path value = some (.object (place name)) := by
      intro path found
      have related := copied.rel_follow path
      rw [found] at related
      generalize heap.follow path value = led at related ⊢
      cases related with
      | some shown =>
          obtain ⟨address, here, rfl⟩ := shown
          rw [here]
    exact ⟨place name, objectAt found, objectAt otherFound⟩

end Graph

namespace Graph

open Execution

/-! ## Slots -/

/-- The widths of the numbers of slots that are bound. -/
def putWidth? : Opcode → Option Nat
  | .binPut => some 1
  | .longBinPut => some 4
  | _ => none

/-- The widths of the numbers of slots that are fetched. -/
def getWidth? : Opcode → Option Nat
  | .binGet => some 1
  | .longBinGet => some 4
  | _ => none

/-- Code that binds a slot. Without a number it binds the one that is the number
of bound slots. -/
inductive Binds (bound : Nat) : Nat → Bytes → Prop
  | line {slot : Nat} {digits : Bytes} : Integer.Numeral slot digits →
      Binds bound slot (Opcode.put.code :: (digits ++ [0x0A]))
  | number {opcode : Opcode} {width slot : Nat} :
      putWidth? opcode = some width → slot < 256 ^ width →
      Binds bound slot (opcode.code :: Bytes.ofNatLE width slot)
  | count : Binds bound bound [Opcode.memoize.code]

/-- Code that fetches a slot. -/
inductive Fetches : Nat → Bytes → Prop
  | line {slot : Nat} {digits : Bytes} : Integer.Numeral slot digits →
      Fetches slot (Opcode.get.code :: (digits ++ [0x0A]))
  | number {opcode : Opcode} {width slot : Nat} :
      getWidth? opcode = some width → slot < 256 ^ width →
      Fetches slot (opcode.code :: Bytes.ofNatLE width slot)

/-! ## Traversals -/

/-- The nodes met so far with their slots, in the order in which they were
met. -/
abbrev Bindings (ι : Type) := List (ι × Nat)

/-- A node that has not been met and a slot that is not in use. -/
structure Bindings.Free (bindings : Bindings ι) (name : ι) (slot : Nat) :
    Prop where
  name : name ∉ bindings.map (·.1)
  slot : slot ∉ bindings.map (·.2)

/-- What a stretch of code stands for: items in a row, or what is added to a
list or to a mapping. -/
inductive Task (ι : Type)
  | row (items : List (Item ι))
  | additions (items : List (Item ι))
  | entries (entries : List (Scalar × Item ι))

/-- Keys and values in turn. -/
def alternating (entries : List (Scalar × Item ι)) : List (Item ι) :=
  entries.flatMap fun (key, item) => [.scalar key, item]

/-- The code of a task, with the bindings before and after it. -/
inductive Emits (graph : Graph ι) :
    Task ι → Bindings ι → Bytes → Bindings ι → Prop
  | scalar {bindings : Bindings ι} {content : Scalar} {code : Bytes} :
      content.Code code →
      Emits graph (.row [.scalar content]) bindings code bindings
  | emptyTuple {bindings : Bindings ι} :
      Emits graph (.row [.tuple []]) bindings [Opcode.emptyTuple.code]
        bindings
  | sizedTuple {before after : Bindings ι} {items : List (Item ι)}
      {code : Bytes} {opcode : Opcode} :
      tupleSize? opcode = some items.length →
      Emits graph (.row items) before code after →
      Emits graph (.row [.tuple items]) before (code ++ [opcode.code]) after
  | markedTuple {before after : Bindings ι} {items : List (Item ι)}
      {code : Bytes} :
      Emits graph (.row items) before code after →
      Emits graph (.row [.tuple items]) before (marked code .tuple) after
  | list {before after : Bindings ι} {name : ι} {slot : Nat}
      {items : List (Item ι)} {binding code : Bytes} :
      graph.node name = .list items → before.Free name slot →
      Binds before.length slot binding →
      Emits graph (.additions items) (before ++ [(name, slot)]) code after →
      Emits graph (.row [.node name]) before
        (Opcode.emptyList.code :: (binding ++ code)) after
  | dict {before after : Bindings ι} {name : ι} {slot : Nat}
      {entries : List (Scalar × Item ι)}
      {distinct : Scalar.Distinct (entries.map (·.1))}
      {binding code : Bytes} :
      graph.node name = .dict entries distinct → before.Free name slot →
      Binds before.length slot binding →
      Emits graph (.entries entries) (before ++ [(name, slot)]) code after →
      Emits graph (.row [.node name]) before
        (Opcode.emptyDict.code :: (binding ++ code)) after
  | again {bindings : Bindings ι} {name : ι} {slot : Nat} {code : Bytes} :
      (name, slot) ∈ bindings → Fetches slot code →
      Emits graph (.row [.node name]) bindings code bindings
  | noItem {bindings : Bindings ι} :
      Emits graph (.row []) bindings [] bindings
  | nextItem {before middle after : Bindings ι} {item : Item ι}
      {items : List (Item ι)} {code more : Bytes} :
      Emits graph (.row [item]) before code middle →
      Emits graph (.row items) middle more after →
      Emits graph (.row (item :: items)) before (code ++ more) after
  | noAddition {bindings : Bindings ι} :
      Emits graph (.additions []) bindings [] bindings
  | append {before middle after : Bindings ι} {item : Item ι}
      {items : List (Item ι)} {code more : Bytes} :
      Emits graph (.row [item]) before code middle →
      Emits graph (.additions items) middle more after →
      Emits graph (.additions (item :: items)) before
        (code ++ Opcode.append.code :: more) after
  | appends {before middle after : Bindings ι}
      {batch items : List (Item ι)} {code more : Bytes} :
      Emits graph (.row batch) before code middle →
      Emits graph (.additions items) middle more after →
      Emits graph (.additions (batch ++ items)) before
        (marked code .appends ++ more) after
  | noEntry {bindings : Bindings ι} :
      Emits graph (.entries []) bindings [] bindings
  | setItem {before middle after : Bindings ι} {key : Scalar}
      {item : Item ι} {entries : List (Scalar × Item ι)}
      {code more : Bytes} :
      Emits graph (.row [.scalar key, item]) before code middle →
      Emits graph (.entries entries) middle more after →
      Emits graph (.entries ((key, item) :: entries)) before
        (code ++ Opcode.setItem.code :: more) after
  | setItems {before middle after : Bindings ι}
      {batch entries : List (Scalar × Item ι)} {code more : Bytes} :
      Emits graph (.row (alternating batch)) before code middle →
      Emits graph (.entries entries) middle more after →
      Emits graph (.entries (batch ++ entries)) before
        (marked code .setItems ++ more) after

end Graph

end PickleGraph
