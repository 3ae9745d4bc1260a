import PickleGraph.Proofs.Actions
import PickleGraph.Proofs.Array.Order

/-!
# Arrays of a buffer

The bytes of a buffer, cut into elements, make one array of a shape that they
fill: the array whose element at an index stands in the buffer at the place of
the index.
-/

namespace PickleGraph

/-! ## Types and shapes -/

/-- Types whose elements are plain bytes, at least one each. -/
structure Dtype.IsRaw (type : Dtype) : Prop where
  hasObject : type.hasObject = false
  noSubarray : ∀ base shape, type ≠ .subarray base shape
  sized : 1 ≤ type.itemSize

/-- The product of the extents that are not zero. -/
def spreadOf (shape : List Nat) : Nat :=
  (shape.filter (· ≠ 0)).prod

/-- A shape of so few and so small extents that arrays of the type have it. -/
structure Dtype.Admits (type : Dtype) (shape : List Nat) : Prop where
  dimensions : shape.length ≤ Dtype.maxDimensions
  inRange : spreadOf shape * type.itemSize < 2 ^ 63

theorem spreadOf_cons (extent : Nat) (shape : List Nat) :
    spreadOf (extent :: shape) =
      if extent = 0 then spreadOf shape else extent * spreadOf shape := by
  unfold spreadOf
  by_cases isZero : extent = 0
  · simp [isZero]
  · simp [isZero]

theorem spreadOf_pos (shape : List Nat) : 1 ≤ spreadOf shape := by
  induction shape with
  | nil => exact Nat.le_refl 1
  | cons extent shape inductionHypothesis =>
      rw [spreadOf_cons]
      split
      · exact inductionHypothesis
      · next notZero =>
          exact Nat.mul_pos (Nat.pos_of_ne_zero notZero) inductionHypothesis

theorem prod_le_spreadOf (shape : List Nat) :
    shape.prod ≤ spreadOf shape := by
  induction shape with
  | nil => exact Nat.le_refl 1
  | cons extent shape inductionHypothesis =>
      rw [spreadOf_cons, List.prod_cons]
      split
      · next isZero =>
          rw [isZero, Nat.zero_mul]
          exact Nat.zero_le _
      · exact Nat.mul_le_mul_left _ inductionHypothesis

theorem foldl_mul_eq (start : Nat) (shape : List Nat) :
    shape.foldl (· * ·) start = start * shape.prod := by
  induction shape generalizing start with
  | nil => exact (Nat.mul_one start).symm
  | cons extent shape inductionHypothesis =>
      rw [List.foldl_cons, inductionHypothesis, List.prod_cons,
        Nat.mul_assoc]

namespace Dtype

variable {type : Dtype} {shape : List Nat}

theorem IsRaw.expand (isRaw : type.IsRaw) : type.expand = ([], type) := by
  cases type with
  | subarray base shape => exact absurd rfl (isRaw.noSubarray base shape)
  | element kind size bigEndian unit => rfl
  | struct fields size => rfl

theorem IsRaw.isUnsized (isRaw : type.IsRaw) : type.isUnsized = false := by
  have sized := isRaw.sized
  cases type with
  | struct fields size => rfl
  | element kind size bigEndian unit =>
      exact beq_false_of_ne (Nat.ne_of_gt sized)
  | subarray base shape => exact beq_false_of_ne (Nat.ne_of_gt sized)

theorem Admits.prod_mul_lt (admits : type.Admits shape) :
    shape.prod * type.itemSize < 2 ^ 63 :=
  Nat.lt_of_le_of_lt (Nat.mul_le_mul_right _ (prod_le_spreadOf shape))
    admits.inRange

theorem Admits.prod_lt (admits : type.Admits shape) (isRaw : type.IsRaw) :
    shape.prod < 2 ^ 63 :=
  Nat.lt_of_le_of_lt (Nat.le_mul_of_pos_right _ isRaw.sized)
    admits.prod_mul_lt

end Dtype

namespace NdArray

variable {type : Dtype} {shape : List Nat} {data : Bytes}

theorem maxSize_eq : maxSize = ((2 ^ 63 - 1 : Nat) : Int) :=
  rfl

theorem fits_of_lt (few : shape.length ≤ Dtype.maxDimensions)
    (inRange : spreadOf shape * type.itemSize < 2 ^ 63) :
    fits type shape = true := by
  have product : (shape.filter (· ≠ 0)).foldl (· * ·) type.itemSize =
      spreadOf shape * type.itemSize := by
    rw [foldl_mul_eq, Nat.mul_comm]
    rfl
  simp only [fits, product, maxSize_eq, Bool.and_eq_true, decide_eq_true_eq,
    Int.ofNat_le]
  omega

theorem fits_line (admits : type.Admits shape) :
    fits type [shape.prod] = true := by
  refine fits_of_lt (by decide : 1 ≤ Dtype.maxDimensions)
    (Nat.lt_of_le_of_lt ?_ admits.inRange)
  refine Nat.mul_le_mul_right _ ?_
  rw [spreadOf_cons]
  split
  · exact spreadOf_pos shape
  · exact Nat.le_trans (Nat.le_of_eq (Nat.mul_one _)) (prod_le_spreadOf shape)

/-! ## Lines of elements -/

/-- The elements in a row. -/
def line (type : Dtype) (count : Nat) (data : Bytes) : NdArray :=
  ⟨type, [count], .raw data, false⟩

theorem ofBuffer_count (isRaw : type.IsRaw) (admits : type.Admits shape)
    (length : data.length = shape.prod * type.itemSize) :
    ofBuffer type data (some shape.prod) false =
      .ok (line type shape.prod data) := by
  have inRange : decide (maxSize < (shape.prod : Int)) = false := by
    have small := admits.prod_lt isRaw
    rw [decide_eq_false_iff_not, maxSize_eq, Int.ofNat_lt]
    omega
  have enough : ¬ data.length < shape.prod * type.itemSize := by
    rw [length]
    exact Nat.lt_irrefl _
  unfold ofBuffer
  simp only [isRaw.hasObject, isRaw.isUnsized, isRaw.expand, Bool.or_self,
    Option.any_some, inRange, if_neg Bool.false_ne_true, if_neg enough,
    Except.bind,
    fits_line admits, if_true]
  rw [List.take_of_length_le (Nat.le_of_eq length)]
  rfl

theorem ofBuffer_all (isRaw : type.IsRaw) (admits : type.Admits shape)
    (length : data.length = shape.prod * type.itemSize) :
    ofBuffer type data none false = .ok (line type shape.prod data) := by
  have divides : ¬ (type.itemSize = 0 ∨ data.length % type.itemSize ≠ 0) := by
    rintro (isZero | rest)
    · exact absurd isZero (Nat.ne_of_gt isRaw.sized)
    · exact rest (by rw [length, Nat.mul_mod_left])
  have count : data.length / type.itemSize = shape.prod := by
    rw [length, Nat.mul_div_cancel _ isRaw.sized]
  unfold ofBuffer
  simp only [isRaw.hasObject, isRaw.isUnsized, isRaw.expand, Bool.or_self,
    Option.any_none, if_neg Bool.false_ne_true, if_neg divides, count,
    Except.bind,
    fits_line admits, if_true]
  rw [List.take_of_length_le (Nat.le_of_eq length)]
  rfl

/-! ## Shapes -/

theorem foldl_known (start : Nat) {shape : List Nat}
    (inRange : start * spreadOf shape < 2 ^ 63) :
    (shape.map Int.ofNat).foldl
        (fun product extent =>
          product.bind fun product =>
            if product * extent ≤ maxSize then some (product * extent)
            else none)
        (some (start : Int)) =
      some ((start * shape.prod : Nat) : Int) := by
  induction shape generalizing start with
  | nil => simp
  | cons extent shape inductionHypothesis =>
      have further : start * extent * spreadOf shape < 2 ^ 63 := by
        rw [spreadOf_cons] at inRange
        split at inRange
        · next isZero => simp [isZero]
        · rw [Nat.mul_assoc]
          exact inRange
      have product : (start : Int) * Int.ofNat extent =
          ((start * extent : Nat) : Int) := by
        simp
      have small : ((start * extent : Nat) : Int) ≤ maxSize := by
        have below := Nat.lt_of_le_of_lt
          (Nat.le_mul_of_pos_right _ (spreadOf_pos shape)) further
        rw [maxSize_eq, Int.ofNat_le]
        omega
      rw [List.map_cons, List.foldl_cons, Option.bind_some, product,
        if_pos small, inductionHypothesis _ further, List.prod_cons,
        Nat.mul_assoc]

theorem completeShape?_eq (inRange : spreadOf shape < 2 ^ 63) :
    completeShape? shape.prod (shape.map Int.ofNat) = some shape := by
  have closed : (shape.map Int.ofNat).filter (0 ≤ ·) =
      shape.map Int.ofNat := by
    refine List.filter_eq_self.mpr fun extent member => ?_
    obtain ⟨natural, _, rfl⟩ := List.mem_map.mp member
    simp
  have noneOpen : ((shape.map Int.ofNat).filter (· < 0)).length = 0 := by
    refine List.length_eq_zero_iff.mpr
      (List.filter_eq_nil_iff.mpr fun extent member => ?_)
    obtain ⟨natural, _, rfl⟩ := List.mem_map.mp member
    simp
  have known : knownProduct? (shape.map Int.ofNat) =
      some ((shape.prod : Nat) : Int) := by
    have folded := foldl_known 1 (Nat.one_mul (spreadOf shape) ▸ inRange)
    rw [Nat.one_mul] at folded
    rw [knownProduct?, closed]
    exact folded
  have natural : (shape.map Int.ofNat).map Int.toNat = shape := by
    rw [List.map_map]
    exact List.map_id shape
  unfold completeShape?
  rw [known, Option.bind_eq_bind, Option.bind_some, noneOpen, natural]
  dsimp only
  unfold guard
  rw [if_pos rfl]
  rfl

/-- The array of the elements that are listed in one order or in the other. -/
def ofListing (type : Dtype) (shape : List Nat) (firstFastest : Bool)
    (data : Bytes) : NdArray where
  type := type
  shape := shape
  content := .raw
    (if firstFastest then
      (toRowMajor shape (pieces type.itemSize shape.prod data)).flatten
    else data)
  writable := false

theorem reshape_line (isRaw : type.IsRaw) (admits : type.Admits shape)
    (firstFastest : Bool) (data : Bytes) :
    (line type shape.prod data).reshape (shape.map Int.ofNat) firstFastest =
      .ok (ofListing type shape firstFastest data) := by
  have size : (line type shape.prod data).size = shape.prod :=
    Nat.one_mul _
  have inRange : spreadOf shape < 2 ^ 63 :=
    Nat.lt_of_le_of_lt (Nat.le_mul_of_pos_right _ isRaw.sized)
      admits.inRange
  have fitting : fits (line type shape.prod data).type shape = true :=
    fits_of_lt admits.dimensions admits.inRange
  unfold reshape
  rw [size, completeShape?_eq inRange]
  simp only [fitting, Bool.not_true, if_neg Bool.false_ne_true]
  cases firstFastest with
  | false => rfl
  | true =>
      have sized : (line type shape.prod data).type.itemSize ≠ 0 :=
        Nat.ne_of_gt isRaw.sized
      have elements : ofRowMajor [shape.prod]
          (pieces type.itemSize shape.prod data) =
            pieces type.itemSize shape.prod data := by
        have inLine := toRowMajor_line
          (pieces type.itemSize shape.prod data)
        rw [length_pieces] at inLine
        exact inLine
      have rearranged : (line type shape.prod data).rearrange shape =
          .raw (toRowMajor shape
            (pieces type.itemSize shape.prod data)).flatten := by
        unfold rearrange
        rw [if_neg sized, size]
        exact congrArg (fun rows => ArrayContent.raw
          (toRowMajor shape rows).flatten) elements
      rw [rearranged]
      rfl

/-! ## Elements -/

/-- The bytes of an element, if the array holds bytes. -/
def element? (array : NdArray) (index : List Nat) : Option Bytes :=
  array.bytes?.map fun data =>
    (data.drop (rowMajorPlace array.shape index * array.type.itemSize)).take
      array.type.itemSize

/-- The place of an element in one order or in the other. -/
def place (firstFastest : Bool) (shape index : List Nat) : Nat :=
  if firstFastest then columnMajorPlace shape index
  else rowMajorPlace shape index

/-- The array has a type and a shape, it cannot be written, and its elements
stand in the data in one order or in the other. -/
structure Lists (type : Dtype) (shape : List Nat) (firstFastest : Bool)
    (data : Bytes) (array : NdArray) : Prop where
  isType : array.type = type
  isShape : array.shape = shape
  isFixed : array.writable = false
  length : array.bytes?.map List.length = some (shape.prod * type.itemSize)
  element : ∀ index, IsIndex shape index →
    array.element? index =
      some ((data.drop (place firstFastest shape index *
        type.itemSize)).take type.itemSize)

theorem lists_ofListing (firstFastest : Bool)
    (length : data.length = shape.prod * type.itemSize) :
    (ofListing type shape firstFastest data).Lists type shape firstFastest
      data := by
  cases firstFastest with
  | false =>
      exact ⟨rfl, rfl, rfl, congrArg some length, fun _ _ => rfl⟩
  | true =>
      have count : (pieces type.itemSize shape.prod data).length =
          shape.prod :=
        length_pieces _ _ _
      have lengths : ∀ element ∈ toRowMajor shape
          (pieces type.itemSize shape.prod data),
          element.length = type.itemSize :=
        fun element member => length_of_mem_pieces length
          (toRowMajor_subset _ _ member)
      refine ⟨rfl, rfl, rfl, ?_, fun index isIndex => ?_⟩
      · refine congrArg some ?_
        show (toRowMajor shape
          (pieces type.itemSize shape.prod data)).flatten.length = _
        rw [length_flatten lengths, length_toRowMajor count]
      · have moved := getElem?_toRowMajor count isIndex
        rw [getElem?_pieces data (columnMajorPlace_lt isIndex)] at moved
        exact congrArg some (take_drop_flatten lengths moved)

/-- There is one such array. -/
theorem Lists.unique {firstFastest : Bool} {array other : NdArray}
    (lists : array.Lists type shape firstFastest data)
    (alsoLists : other.Lists type shape firstFastest data) :
    array = other := by
  obtain ⟨rfl, rfl, isFixed, length, element⟩ := lists
  obtain ⟨isType, isShape, alsoFixed, otherLength, otherElement⟩ := alsoLists
  obtain ⟨type, shape, content, writable⟩ := array
  obtain ⟨otherType, otherShape, otherContent, otherWritable⟩ := other
  cases isType
  cases isShape
  cases isFixed
  cases alsoFixed
  cases content with
  | items values => cases length
  | raw bytes =>
  cases otherContent with
  | items values => cases otherLength
  | raw others =>
      have same : bytes = others := by
        refine eq_of_pieces (Option.some.inj length)
          (Option.some.inj otherLength) fun place inRange => ?_
        obtain ⟨index, isIndex, rfl⟩ := exists_rowMajorPlace inRange
        exact Option.some.inj
          ((element index isIndex).trans (otherElement index isIndex).symm)
      rw [same]

end NdArray

end PickleGraph
