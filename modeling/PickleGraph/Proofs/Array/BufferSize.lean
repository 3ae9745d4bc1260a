import PickleGraph.Proofs.Array.Header

/-!
# The size of a buffer

A record of an array rebuilds nothing from a buffer of another size than its
shape asks for. The number of elements is counted in words of 64 bits, so a
shape of too many elements can ask for the size of a small buffer; such a shape
is refused when the elements are brought into it.
-/

namespace PickleGraph

open Actions

variable {type : Dtype} {shape : List Nat} {data : Bytes} {heap : Heap}

/-! ## Extents in words -/

/-- The values are the extents of the shape; truth values count as numbers. -/
def AreExtents (values : List Value) (shape : List Nat) : Prop :=
  values.map Value.number? = shape.map fun extent => some (.int extent)

theorem extentWord_eq {value : Value} {extent : Nat}
    (isNumber : value.number? = some (.int extent))
    (small : extent < 2 ^ 63) :
    Heap.extentWord value = .ok (extent : Int) := by
  have inRange : ¬ ((extent : Int) < -2 ^ 63 ∨ 2 ^ 64 ≤ (extent : Int)) := by
    omega
  unfold Heap.extentWord
  rw [isNumber]
  exact if_neg inRange

theorem mapM_extentWord {values : List Value}
    (areExtents : AreExtents values shape)
    (small : ∀ extent ∈ shape, extent < 2 ^ 63) :
    values.mapM Heap.extentWord = .ok (shape.map Int.ofNat) := by
  induction values generalizing shape with
  | nil =>
      rw [List.map_eq_nil_iff.mp areExtents.symm]
      rfl
  | cons value values inductionHypothesis =>
      cases shape with
      | nil => cases areExtents
      | cons extent shape =>
          obtain ⟨isNumber, others⟩ := List.cons.inj areExtents
          have first := extentWord_eq isNumber
            (small extent List.mem_cons_self)
          have rest := inductionHypothesis others fun other member =>
            small other (List.mem_cons_of_mem extent member)
          rw [List.mapM_cons, first, rest]
          rfl

theorem elementCount_eq {values : List Value}
    (areExtents : AreExtents values shape)
    (small : ∀ extent ∈ shape, extent < 2 ^ 63) :
    Heap.elementCount values =
      .ok (Int.bmod (shape.prod : Int) (2 ^ 64)) := by
  refine except_bind_eq_ok_iff.mpr
    ⟨_, mapM_extentWord areExtents small, ?_⟩
  rw [foldl_mul_ofNat]
  rfl

theorem exactInt?_of_number? {value : Value} {number exact : Int}
    (isNumber : value.number? = some (.int number))
    (isExact : value.exactInt? = some exact) :
    exact = number := by
  unfold Value.number? at isNumber
  unfold Value.exactInt? at isExact
  split at isExact
  · next found =>
      rw [found] at isNumber
      cases isNumber
      exact (Option.some.inj isExact).symm
  · cases isExact

theorem eq_of_extentsOf {values : List Value} {extents : List Int}
    (areExtents : AreExtents values shape)
    (taken : NdArray.extentsOf values = .ok extents) :
    extents = shape.map Int.ofNat := by
  unfold NdArray.extentsOf at taken
  split at taken
  · cases taken
  · clear * - areExtents taken
    induction values generalizing shape extents with
    | nil =>
        rw [List.map_eq_nil_iff.mp areExtents.symm]
        cases taken
        rfl
    | cons value values inductionHypothesis =>
        cases shape with
        | nil => cases areExtents
        | cons extent shape =>
            obtain ⟨isNumber, others⟩ := List.cons.inj areExtents
            rw [List.mapM_cons] at taken
            obtain ⟨first, read, taken⟩ := except_bind_eq_ok_iff.mp taken
            obtain ⟨rest, readRest, taken⟩ :=
              except_bind_eq_ok_iff.mp taken
            cases taken
            rw [inductionHypothesis others readRest]
            split at read
            · cases read
            · next exact isExact =>
                split at read
                · cases read
                · cases read
                  rw [exactInt?_of_number? isNumber isExact]
                  rfl

/-! ## Checked products -/

namespace NdArray

/-- A product that stays in range at every factor is the product. -/
theorem eq_of_foldl_known {first known : Int} {shape : List Nat}
    (bounded : first ≤ maxSize)
    (found : (shape.map Int.ofNat).foldl
        (fun product extent =>
          product.bind fun product =>
            if product * extent ≤ maxSize then some (product * extent)
            else none)
        (some first) = some known) :
    known = first * (shape.prod : Int) ∧ known ≤ maxSize := by
  induction shape generalizing first with
  | nil =>
      cases found
      exact ⟨(Int.mul_one _).symm, bounded⟩
  | cons extent shape inductionHypothesis =>
      rw [List.map_cons, List.foldl_cons, Option.bind_some] at found
      split at found
      · next inRange =>
          obtain ⟨product, small⟩ := inductionHypothesis inRange found
          refine ⟨?_, small⟩
          rw [product, List.prod_cons, Int.natCast_mul, Int.mul_assoc]
          rfl
      · next tooLarge =>
          have stuck : (shape.map Int.ofNat).foldl
              (fun product extent =>
                product.bind fun product =>
                  if product * extent ≤ maxSize then some (product * extent)
                  else none) none = none := by
            generalize shape.map Int.ofNat = extents
            induction extents with
            | nil => rfl
            | cons _ _ stuck => exact stuck
          rw [stuck] at found
          cases found

theorem knownProduct?_eq_none (tooMany : 2 ^ 63 ≤ shape.prod) :
    knownProduct? (shape.map Int.ofNat) = none := by
  have closed : (shape.map Int.ofNat).filter (0 ≤ ·) =
      shape.map Int.ofNat := by
    refine List.filter_eq_self.mpr fun extent member => ?_
    obtain ⟨natural, _, rfl⟩ := List.mem_map.mp member
    simp
  rw [Option.eq_none_iff_forall_ne_some]
  intro known found
  rw [knownProduct?, closed] at found
  have oneInRange : (1 : Int) ≤ maxSize := by decide
  obtain ⟨product, small⟩ := eq_of_foldl_known oneInRange found
  rw [product, Int.one_mul, maxSize_eq, Int.ofNat_le] at small
  omega

theorem reshape_of_tooMany (tooMany : 2 ^ 63 ≤ shape.prod)
    (array : NdArray) (firstFastest : Bool) :
    array.reshape (shape.map Int.ofNat) firstFastest = .error .badValue := by
  have unfillable :
      completeShape? array.size (shape.map Int.ofNat) = none := by
    unfold completeShape?
    rw [knownProduct?_eq_none tooMany]
    rfl
  unfold reshape
  rw [unfillable]

end NdArray

/-! ## Records -/

theorem rebuild_eq_error {record : Record} {failure : Failure}
    (isArray : record.kind = .ndarray)
    (failed : heap.arrayOfRecord record = .error failure) :
    heap.rebuild record = .error failure := by
  unfold Heap.rebuild
  rw [isArray]
  dsimp only
  rw [failed]
  rfl

/-- The bytes that elements of a type take in a shape, where the elements are
counted in words of 64 bits. -/
def wordSize (type : Dtype) (shape : List Nat) : Int :=
  Int.bmod (shape.prod : Int) (2 ^ 64) * type.itemSize

/-- A record of an array whose fields give few enough extents of 63 bits, a type
of plain bytes and a byte string. -/
structure Record.HoldsBuffer (record : Record) (heap : Heap) (type : Dtype)
    (shape : List Nat) (data : Bytes) : Prop where
  isArray : record.kind = .ndarray
  isShape : ∃ values, record.field? "shape" = some (.tuple values) ∧
    AreExtents values shape
  dimensions : shape.length ≤ Dtype.maxDimensions
  small : ∀ extent ∈ shape, extent < 2 ^ 63
  isType : heap.toDtype (record.field "dtype") = .ok type
  isRaw : type.IsRaw
  isData : record.field "data" = .bytes data

namespace Record.HoldsBuffer

variable {record : Record}
variable (holds : record.HoldsBuffer heap type shape data)

include holds

/-- The size that the record asks for: the product of its extents in words of
64 bits times the size of an element. -/
theorem arrayOfRecord_eq {values : List Value} {firstFastest : Bool}
    (hasShape : record.field? "shape" = some (.tuple values))
    (areExtents : AreExtents values shape)
    (isOrder : heap.isTrue (record.field "fortran_order") =
      .ok firstFastest) :
    heap.arrayOfRecord record =
      if (data.length : Int) ≠ wordSize type shape then
        Failure.raise (.bufferSize data.length (wordSize type shape))
      else do
        let line ← heap.lend type (.bytes data)
        return (← line.reshape (← NdArray.extentsOf values) firstFastest,
          heap) := by
  have iterated : heap.iterate
      ((record.field? "shape").getD (.tuple [])) = .ok (values, heap) := by
    rw [hasShape]
    rfl
  unfold Heap.arrayOfRecord
  refine (except_bind_of_eq_ok (congrArg liftM iterated)).trans ?_
  refine (except_bind_of_eq_ok holds.isType).trans ?_
  refine (except_bind_of_eq_ok (congrArg liftM isOrder)).trans ?_
  dsimp only
  rw [holds.isRaw.hasObject, if_neg Bool.false_ne_true, holds.isData]
  have octets : Heap.bufferOctets (.bytes data) = .ok (.bytes data) := rfl
  have length : heap.length (.bytes data) = .ok data.length := rfl
  refine (except_bind_of_eq_ok (congrArg liftM octets)).trans ?_
  refine (except_bind_of_eq_ok (congrArg liftM
    (elementCount_eq areExtents holds.small))).trans ?_
  exact except_bind_of_eq_ok (congrArg liftM length)

/-- The truth of the order is asked for before the buffer is looked at. -/
theorem rebuild_of_noOrder {refusal : Refusal}
    (noOrder : heap.isTrue (record.field "fortran_order") =
      .error refusal) :
    heap.rebuild record = .error (.refused refusal) := by
  obtain ⟨values, hasShape, _⟩ := holds.isShape
  have iterated : heap.iterate
      ((record.field? "shape").getD (.tuple [])) = .ok (values, heap) := by
    rw [hasShape]
    rfl
  refine rebuild_eq_error holds.isArray ?_
  unfold Heap.arrayOfRecord
  refine (except_bind_of_eq_ok (congrArg liftM iterated)).trans ?_
  refine (except_bind_of_eq_ok holds.isType).trans ?_
  rw [noOrder]
  rfl

variable {firstFastest : Bool}
variable (isOrder : heap.isTrue (record.field "fortran_order") =
  .ok firstFastest)

include isOrder

theorem rebuild_of_otherSize
    (differs : (data.length : Int) ≠ wordSize type shape) :
    heap.rebuild record =
      Failure.raise (.bufferSize data.length (wordSize type shape)) := by
  obtain ⟨values, hasShape, areExtents⟩ := holds.isShape
  have failed := holds.arrayOfRecord_eq hasShape areExtents isOrder
  rw [if_pos differs] at failed
  exact rebuild_eq_error holds.isArray failed

/-- Elements cannot be brought into a shape whose product is out of range. -/
theorem rebuild_of_tooMany
    (same : (data.length : Int) = wordSize type shape)
    (tooMany : 2 ^ 63 ≤ shape.prod) :
    ∃ refusal, heap.rebuild record = .error (.refused refusal) := by
  obtain ⟨values, hasShape, areExtents⟩ := holds.isShape
  have reached := holds.arrayOfRecord_eq hasShape areExtents isOrder
  rw [if_neg (not_not_intro same)] at reached
  have refused : ∃ refusal,
      heap.arrayOfRecord record = .error (.refused refusal) := by
    rw [reached]
    cases lent : heap.lend type (.bytes data) with
    | error refusal => exact ⟨refusal, rfl⟩
    | ok line =>
        cases taken : NdArray.extentsOf values with
        | error refusal => exact ⟨refusal, rfl⟩
        | ok extents =>
            have shaped := line.reshape_of_tooMany tooMany firstFastest
            rw [← eq_of_extentsOf areExtents taken] at shaped
            refine ⟨.badValue, ?_⟩
            refine (except_bind_of_eq_ok rfl).trans ?_
            refine (except_bind_of_eq_ok rfl).trans ?_
            rw [shaped]
            rfl
  obtain ⟨refusal, failed⟩ := refused
  exact ⟨refusal, rebuild_eq_error holds.isArray failed⟩

end Record.HoldsBuffer

/-- A number that a word can hold is not changed in one. -/
theorem wordSize_of_lt (type : Dtype) (inRange : shape.prod < 2 ^ 63) :
    wordSize type shape = ((shape.prod * type.itemSize : Nat) : Int) := by
  have kept : Int.bmod (shape.prod : Int) (2 ^ 64) = shape.prod := by
    apply Int.bmod_eq_of_le <;> omega
  unfold wordSize
  rw [kept]
  exact (Int.natCast_mul _ _).symm

/-- From a buffer of another size than its shape asks for, no array is rebuilt.
The size is reported as malformed unless the number of elements is out of the
range of a word and, counted in words, asks for the size of the buffer. -/
theorem rebuild_sizeMismatch {record : Record}
    (holds : record.HoldsBuffer heap type shape data)
    (mismatch : data.length ≠ shape.prod * type.itemSize) :
    (∀ refusal,
      heap.isTrue (record.field "fortran_order") = .error refusal →
        heap.rebuild record = .error (.refused refusal)) ∧
    ∀ firstFastest,
      heap.isTrue (record.field "fortran_order") = .ok firstFastest →
        (shape.prod < 2 ^ 63 →
          heap.rebuild record = Failure.raise (.bufferSize data.length
            ((shape.prod * type.itemSize : Nat) : Int))) ∧
        (2 ^ 63 ≤ shape.prod →
          ((data.length : Int) = wordSize type shape →
            ∃ refusal, heap.rebuild record = .error (.refused refusal)) ∧
          ((data.length : Int) ≠ wordSize type shape →
            heap.rebuild record = Failure.raise
              (.bufferSize data.length (wordSize type shape)))) := by
  refine ⟨fun _ noOrder => holds.rebuild_of_noOrder noOrder,
    fun firstFastest isOrder => ⟨fun inRange => ?_, fun tooMany => ?_⟩⟩
  · have asked := wordSize_of_lt type inRange
    have differs : (data.length : Int) ≠ wordSize type shape := by
      rw [asked]
      exact fun same => mismatch (Int.ofNat_inj.mp same)
    have reported := holds.rebuild_of_otherSize isOrder differs
    rw [asked] at reported
    exact reported
  · exact ⟨fun same => holds.rebuild_of_tooMany isOrder same tooMany,
      fun differs => holds.rebuild_of_otherSize isOrder differs⟩

/-! ## Shapes beyond a word -/

/-- A type of single bytes. -/
def octetType : Dtype := .element .unsigned 1 false none

/-- A record of an array of 2 ^ 32 rows of 2 ^ 32 bytes. -/
def hugeRecord (data : Bytes) : Record :=
  Record.fillPositions
    { kind := .ndarray
      module := "numpy.core.multiarray"
      name := "_reconstruct"
      target := "numpy.ndarray"
      strategy := Catalog.arrayStrategy
      args := []
      fields := [] }
    (Catalog.arrayState.map Text.ofString)
    [.int 1, .tuple [.int (2 ^ 32 : Nat), .int (2 ^ 32 : Nat)],
      .str (Text.ofString "u1"), .bool false, .bytes data]

theorem field?_hugeRecord (data : Bytes) (name : String) :
    (hugeRecord data).field? name =
      if name = "data" then some (.bytes data)
      else if name = "fortran_order" then some (.bool false)
      else if name = "dtype" then some (.str (Text.ofString "u1"))
      else if name = "shape" then
        some (.tuple [.int (2 ^ 32 : Nat), .int (2 ^ 32 : Nat)])
      else if name = "version" then some (.int 1)
      else none :=
  Record.field?_fillPositions _ _ _ _ _ _ name

theorem holdsBuffer_hugeRecord (data : Bytes) :
    (hugeRecord data).HoldsBuffer .empty octetType [2 ^ 32, 2 ^ 32]
      data where
  isArray := rfl
  isShape := ⟨_, field?_hugeRecord data "shape", rfl⟩
  dimensions := by decide
  small := by decide
  isType := by
    rw [Record.field, field?_hugeRecord]
    exact Heap.toDtype_str rfl
  isRaw := ⟨rfl, fun _ _ impossible => (by cases impossible), by decide⟩
  isData := by
    rw [Record.field, field?_hugeRecord]
    rfl

theorem isTrue_order_hugeRecord (data : Bytes) :
    Heap.empty.isTrue ((hugeRecord data).field "fortran_order") =
      .ok false := by
  rw [Record.field, field?_hugeRecord]
  rfl

theorem wordSize_huge : wordSize octetType [2 ^ 32, 2 ^ 32] = 0 := by
  decide

/-- An empty buffer passes for the bytes of this array, and no malformed size is
reported. -/
theorem rebuild_hugeRecord_empty :
    (hugeRecord []).HoldsBuffer .empty octetType [2 ^ 32, 2 ^ 32] [] ∧
      ([] : Bytes).length ≠ [2 ^ 32, 2 ^ 32].prod * octetType.itemSize ∧
      ∃ refusal,
        Heap.empty.rebuild (hugeRecord []) = .error (.refused refusal) := by
  have holds := holdsBuffer_hugeRecord []
  refine ⟨holds, by decide, ?_⟩
  exact holds.rebuild_of_tooMany (isTrue_order_hugeRecord [])
    wordSize_huge.symm (by decide)

theorem rebuild_sizeMismatch_huge :
    (hugeRecord [7]).HoldsBuffer .empty octetType [2 ^ 32, 2 ^ 32] [7] ∧
      ([7] : Bytes).length ≠ [2 ^ 32, 2 ^ 32].prod * octetType.itemSize ∧
      Heap.empty.rebuild (hugeRecord [7]) =
        Failure.raise (.bufferSize 1 0) := by
  have holds := holdsBuffer_hugeRecord [7]
  have mismatch :
      ([7] : Bytes).length ≠ [2 ^ 32, 2 ^ 32].prod * octetType.itemSize := by
    decide
  have differs : (([7] : Bytes).length : Int) ≠
      wordSize octetType [2 ^ 32, 2 ^ 32] := by
    rw [wordSize_huge]
    decide
  have reported := (((rebuild_sizeMismatch holds mismatch).2 false
    (isTrue_order_hugeRecord [7])).2 (by decide)).2 differs
  rw [wordSize_huge] at reported
  exact ⟨holds, mismatch, reported⟩

end PickleGraph
