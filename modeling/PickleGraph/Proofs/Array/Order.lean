import Mathlib.Algebra.Group.Nat.Defs
import Mathlib.Data.List.Forall2
import PickleGraph.NdArray

/-!
# Orders of elements

The elements of an array are listed with the last index moving fastest or with
the first one. An element has a place in either order, and bringing a list from
one order into the other moves every element from its one place to the other.
-/

namespace PickleGraph

variable {α : Type}

/-! ## Places -/

/-- An index along every axis of a shape, within its extent. -/
abbrev IsIndex (shape index : List Nat) : Prop :=
  List.Forall₂ (· < ·) index shape

/-- The place of an element where the last index moves fastest. -/
def rowMajorPlace : (shape index : List Nat) → Nat
  | _ :: shape, position :: index =>
      position * shape.prod + rowMajorPlace shape index
  | _, _ => 0

/-- The place of an element where the first index moves fastest. -/
def columnMajorPlace : (shape index : List Nat) → Nat
  | extent :: shape, position :: index =>
      position + extent * columnMajorPlace shape index
  | _, _ => 0

theorem rowMajorPlace_lt {shape index : List Nat}
    (isIndex : IsIndex shape index) :
    rowMajorPlace shape index < shape.prod := by
  induction isIndex with
  | nil => exact Nat.one_pos
  | @cons position extent index shape inRange _ inductionHypothesis =>
      rw [rowMajorPlace, List.prod_cons]
      calc position * shape.prod + rowMajorPlace shape index
        _ < position * shape.prod + shape.prod :=
            Nat.add_lt_add_left inductionHypothesis _
        _ = (position + 1) * shape.prod := (Nat.succ_mul _ _).symm
        _ ≤ extent * shape.prod := Nat.mul_le_mul_right _ inRange

theorem columnMajorPlace_lt {shape index : List Nat}
    (isIndex : IsIndex shape index) :
    columnMajorPlace shape index < shape.prod := by
  induction isIndex with
  | nil => exact Nat.one_pos
  | @cons position extent index shape inRange _ inductionHypothesis =>
      rw [columnMajorPlace, List.prod_cons]
      calc position + extent * columnMajorPlace shape index
        _ < extent + extent * columnMajorPlace shape index :=
            Nat.add_lt_add_right inRange _
        _ = extent * (columnMajorPlace shape index + 1) := by
            rw [Nat.mul_succ, Nat.add_comm]
        _ ≤ extent * shape.prod :=
            Nat.mul_le_mul_left _ inductionHypothesis

/-- Every place of a shape belongs to an index. -/
theorem exists_rowMajorPlace {shape : List Nat} {place : Nat}
    (inRange : place < shape.prod) :
    ∃ index, IsIndex shape index ∧ rowMajorPlace shape index = place := by
  induction shape generalizing place with
  | nil => exact ⟨[], .nil, (Nat.lt_one_iff.mp inRange).symm⟩
  | cons extent shape inductionHypothesis =>
      rw [List.prod_cons] at inRange
      have positive : 0 < shape.prod :=
        Nat.pos_of_mul_pos_left (Nat.lt_of_le_of_lt (Nat.zero_le _) inRange)
      obtain ⟨index, isIndex, isPlace⟩ :=
        inductionHypothesis (Nat.mod_lt place positive)
      refine ⟨place / shape.prod :: index, .cons ?_ isIndex, ?_⟩
      · exact Nat.div_lt_of_lt_mul (Nat.mul_comm extent _ ▸ inRange)
      · rw [rowMajorPlace, isPlace, Nat.mul_comm]
        exact Nat.div_add_mod place shape.prod

/-! ## Pieces -/

@[simp] theorem length_pieces (size count : Nat) (items : List α) :
    (pieces size count items).length = count := by
  induction count generalizing items with
  | zero => rfl
  | succ count inductionHypothesis =>
      rw [pieces, List.length_cons, inductionHypothesis]

theorem getElem?_pieces {size count place : Nat} (items : List α)
    (inRange : place < count) :
    (pieces size count items)[place]? =
      some ((items.drop (place * size)).take size) := by
  induction count generalizing items place with
  | zero => exact absurd inRange (Nat.not_lt_zero _)
  | succ count inductionHypothesis =>
      cases place with
      | zero => simp [pieces]
      | succ place =>
          rw [pieces, List.getElem?_cons_succ,
            inductionHypothesis _ (Nat.lt_of_succ_lt_succ inRange),
            List.drop_drop, Nat.succ_mul, Nat.add_comm size]

/-- The item at a place inside lists of one length that follow each other. -/
theorem getElem?_flatten {lists : List (List α)} {size place offset : Nat}
    (lengths : ∀ list ∈ lists, list.length = size) (inRange : offset < size) :
    lists.flatten[place * size + offset]? =
      lists[place]?.bind (·[offset]?) := by
  induction lists generalizing place with
  | nil => rfl
  | cons list rest inductionHypothesis =>
      have length := lengths list List.mem_cons_self
      have others : ∀ other ∈ rest, other.length = size :=
        fun other member => lengths other (List.mem_cons_of_mem _ member)
      rw [List.flatten_cons]
      cases place with
      | zero =>
          rw [Nat.zero_mul, Nat.zero_add,
            List.getElem?_append_left (length ▸ inRange)]
          rfl
      | succ place =>
          have later : (place + 1) * size + offset - list.length =
              place * size + offset := by
            rw [length, Nat.succ_mul]
            omega
          have beyond : list.length ≤ (place + 1) * size + offset := by
            rw [length, Nat.succ_mul]
            omega
          rw [List.getElem?_append_right beyond, later,
            inductionHypothesis others, List.getElem?_cons_succ]

/-- One of the lists of one length that follow each other. -/
theorem take_drop_flatten {lists : List (List α)} {size place : Nat}
    (lengths : ∀ list ∈ lists, list.length = size) {found : List α}
    (here : lists[place]? = some found) :
    (lists.flatten.drop (place * size)).take size = found := by
  induction lists generalizing place with
  | nil => cases here
  | cons list rest inductionHypothesis =>
      have length := lengths list List.mem_cons_self
      have others : ∀ other ∈ rest, other.length = size :=
        fun other member => lengths other (List.mem_cons_of_mem _ member)
      rw [List.flatten_cons]
      cases place with
      | zero =>
          cases here
          rw [Nat.zero_mul, List.drop_zero, ← length, List.take_left]
      | succ place =>
          have skipped : (place + 1) * size = list.length + place * size := by
            rw [length, Nat.succ_mul, Nat.add_comm]
          rw [skipped, ← List.drop_drop, List.drop_left]
          exact inductionHypothesis others here

theorem length_flatten {lists : List (List α)} {size : Nat}
    (lengths : ∀ list ∈ lists, list.length = size) :
    lists.flatten.length = lists.length * size := by
  rw [List.length_flatten, List.map_congr_left lengths, List.map_const',
    List.sum_replicate_nat]

theorem subset_of_mem_pieces {size count : Nat}
    {items piece : List α} (member : piece ∈ pieces size count items) :
    piece ⊆ items := by
  induction count generalizing items with
  | zero => cases member
  | succ count inductionHypothesis =>
      rcases List.mem_cons.mp member with rfl | later
      · exact List.take_subset _ _
      · exact List.Subset.trans (inductionHypothesis later)
          (List.drop_subset _ _)

theorem length_of_mem_pieces {size count : Nat} {items : List α}
    (length : items.length = count * size) {piece : List α}
    (member : piece ∈ pieces size count items) : piece.length = size := by
  induction count generalizing items with
  | zero => cases member
  | succ count inductionHypothesis =>
      rw [Nat.succ_mul] at length
      rcases List.mem_cons.mp member with rfl | later
      · rw [List.length_take, length]
        exact Nat.min_eq_left (Nat.le_add_left _ _)
      · refine inductionHypothesis ?_ later
        rw [List.length_drop, length, Nat.add_sub_cancel]

theorem flatten_pieces {size count : Nat} {items : List α}
    (length : items.length = count * size) :
    (pieces size count items).flatten = items := by
  induction count generalizing items with
  | zero =>
      rw [Nat.zero_mul] at length
      rw [List.length_eq_zero_iff.mp length]
      rfl
  | succ count inductionHypothesis =>
      have rest : (items.drop size).length = count * size := by
        rw [List.length_drop, length, Nat.succ_mul, Nat.add_sub_cancel]
      rw [pieces, List.flatten_cons, inductionHypothesis rest,
        List.take_append_drop]

theorem eq_of_pieces {size count : Nat} {items others : List α}
    (length : items.length = count * size)
    (otherLength : others.length = count * size)
    (same : ∀ place < count, (items.drop (place * size)).take size =
      (others.drop (place * size)).take size) : items = others := by
  rw [← flatten_pieces length, ← flatten_pieces otherLength]
  refine congrArg List.flatten (List.ext_getElem? fun place => ?_)
  by_cases inRange : place < count
  · rw [getElem?_pieces items inRange, getElem?_pieces others inRange,
      same place inRange]
  · have beyond := Nat.le_of_not_lt inRange
    rw [List.getElem?_eq_none (by simpa using beyond),
      List.getElem?_eq_none (by simpa using beyond)]

/-! ## Every so many items -/

/-- The first items of the pieces, where none is empty. -/
theorem getElem?_heads {size : Nat} (positive : 0 < size) (count : Nat)
    {items : List α} (enough : count * size < items.length + size)
    (place : Nat) :
    ((pieces size count items).filterMap List.head?)[place]? =
      if place < count then items[size * place]? else none := by
  induction count generalizing items place with
  | zero => rfl
  | succ count inductionHypothesis =>
      rw [Nat.succ_mul] at enough
      cases items with
      | nil =>
          rw [List.length_nil] at enough
          omega
      | cons first rest =>
          obtain ⟨size, rfl⟩ : ∃ less, size = less + 1 :=
            ⟨size - 1, by omega⟩
          have further : count * (size + 1) <
              ((first :: rest).drop (size + 1)).length + (size + 1) := by
            rw [List.length_drop]
            omega
          have head : ((first :: rest).take (size + 1)).head? =
              some first := rfl
          rw [pieces, List.filterMap_cons, head]
          cases place with
          | zero => simp
          | succ place =>
              rw [List.getElem?_cons_succ, inductionHypothesis further,
                List.getElem?_drop, Nat.mul_succ, Nat.add_comm (size + 1)]
              simp only [Nat.succ_lt_succ_iff]

theorem getElem?_everyNth {count : Nat} (positive : 0 < count)
    (items : List α) (place : Nat) :
    (everyNth count items)[place]? = items[count * place]? := by
  have same : max count 1 = count := Nat.max_eq_left positive
  have enough : (items.length + count - 1) / count * count <
      items.length + count := by
    have below := Nat.div_mul_le_self (items.length + count - 1) count
    omega
  rw [everyNth, same, getElem?_heads positive _ enough]
  split
  · rfl
  · next beyond =>
      have beyond := Nat.le_of_not_lt beyond
      have outside : items.length ≤ count * place := by
        have bound : items.length + count - 1 < (place + 1) * count :=
          (Nat.div_lt_iff_lt_mul positive).mp (Nat.lt_succ_of_le beyond)
        rw [Nat.succ_mul, Nat.mul_comm] at bound
        omega
      exact (List.getElem?_eq_none outside).symm

/-- Of a list that is laid out in blocks of `extent` items, one item of each
block. -/
theorem length_everyNth {extent count position : Nat} {items : List α}
    (length : items.length = extent * count) (inRange : position < extent) :
    (everyNth extent (items.drop position)).length = count := by
  have positive : 0 < extent := Nat.lt_of_le_of_lt (Nat.zero_le _) inRange
  have entry : ∀ place,
      (everyNth extent (items.drop position))[place]? =
        items[position + extent * place]? := by
    intro place
    rw [getElem?_everyNth positive, List.getElem?_drop]
  apply Nat.le_antisymm
  · have outside : items.length ≤ position + extent * count := by
      rw [length]
      exact Nat.le_add_left _ _
    refine List.getElem?_eq_none_iff.mp ?_
    rw [entry, List.getElem?_eq_none outside]
  · refine Nat.le_of_not_lt fun short => ?_
    have inside : position + extent *
        (everyNth extent (items.drop position)).length < items.length := by
      rw [length]
      have below := Nat.mul_le_mul_left extent short
      rw [Nat.mul_succ] at below
      omega
    have missing := entry (everyNth extent (items.drop position)).length
    rw [List.getElem?_eq_none (Nat.le_refl _)] at missing
    exact absurd (List.getElem?_eq_none_iff.mp missing.symm)
      (Nat.not_le.mpr inside)

theorem everyNth_subset (count : Nat) (items : List α) :
    everyNth count items ⊆ items := by
  intro item member
  obtain ⟨piece, isPiece, isHead⟩ := List.mem_filterMap.mp member
  exact subset_of_mem_pieces isPiece (List.mem_of_head? isHead)

/-! ## From one order into the other -/

theorem toRowMajor_subset (shape : List Nat) (items : List α) :
    toRowMajor shape items ⊆ items := by
  induction shape generalizing items with
  | nil => exact List.Subset.refl _
  | cons extent shape inductionHypothesis =>
      unfold toRowMajor
      split
      · exact List.nil_subset _
      · intro item member
        obtain ⟨index, _, member⟩ := List.mem_flatMap.mp member
        have inColumn := inductionHypothesis _ member
        exact List.drop_subset _ _ (everyNth_subset _ _ inColumn)

theorem length_toRowMajor {shape : List Nat} {items : List α}
    (length : items.length = shape.prod) :
    (toRowMajor shape items).length = shape.prod := by
  induction shape generalizing items with
  | nil => exact length
  | cons extent shape inductionHypothesis =>
      rw [toRowMajor]
      split
      · next isEmpty =>
          rw [List.isEmpty_iff.mp isEmpty] at length
          exact length
      · rw [List.prod_cons] at length
        have lengths : ∀ block ∈ (List.range extent).map (fun position =>
            toRowMajor shape (everyNth extent (items.drop position))),
            block.length = shape.prod := by
          intro block member
          obtain ⟨position, isPosition, rfl⟩ := List.mem_map.mp member
          exact inductionHypothesis
            (length_everyNth length (List.mem_range.mp isPosition))
        rw [List.flatMap_def, length_flatten lengths, List.length_map,
          List.length_range, List.prod_cons]

/-- An element moves from its place where the first index moves fastest to its
place in row-major order. -/
theorem getElem?_toRowMajor {shape index : List Nat} {items : List α}
    (length : items.length = shape.prod) (isIndex : IsIndex shape index) :
    (toRowMajor shape items)[rowMajorPlace shape index]? =
      items[columnMajorPlace shape index]? := by
  induction isIndex generalizing items with
  | nil => rfl
  | @cons position extent index shape inRange isIndex inductionHypothesis =>
      have place := rowMajorPlace_lt isIndex
      rw [List.prod_cons] at length
      have present : items.isEmpty = false := by
        have some := columnMajorPlace_lt (.cons inRange isIndex)
        rw [List.prod_cons, ← length] at some
        cases items with
        | nil => exact absurd some (Nat.not_lt_zero _)
        | cons => rfl
      have lengths : ∀ list ∈ (List.range extent).map (fun position =>
          toRowMajor shape (everyNth extent (items.drop position))),
          list.length = shape.prod := by
        intro list member
        obtain ⟨other, isOther, rfl⟩ := List.mem_map.mp member
        exact length_toRowMajor
          (length_everyNth length (List.mem_range.mp isOther))
      rw [toRowMajor, present, if_neg Bool.false_ne_true,
        List.flatMap_def, rowMajorPlace, getElem?_flatten lengths place,
        List.getElem?_map, List.getElem?_range inRange]
      have block := inductionHypothesis (length_everyNth length inRange)
      rw [getElem?_everyNth (Nat.lt_of_le_of_lt (Nat.zero_le _) inRange),
        List.getElem?_drop] at block
      exact block

/-- A list has one order only. -/
theorem toRowMajor_line (items : List α) :
    toRowMajor [items.length] items = items := by
  have product : items.length = [items.length].prod := (Nat.mul_one _).symm
  refine List.ext_getElem? fun place => ?_
  by_cases inRange : place < items.length
  · have moved := getElem?_toRowMajor product
      (List.Forall₂.cons inRange .nil)
    simpa [rowMajorPlace, columnMajorPlace] using moved
  · have length := length_toRowMajor product
    rw [List.getElem?_eq_none (Nat.le_of_not_lt inRange),
      List.getElem?_eq_none]
    rw [length, ← product]
    exact Nat.le_of_not_lt inRange

end PickleGraph
