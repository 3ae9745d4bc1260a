import PickleGraph.NdArray.OfRecord
import PickleGraph.Proofs.Names.Description

/-!
# Types and arrays under other names

What a value describes and what a record rebuilds does not depend on the names
of types. Only the unit of a time may be worded as a value with names in it, and
then it is no unit.
-/

namespace PickleGraph

open Actions

namespace Heap

variable (naming : Naming) (heap : Heap)

/-! ## Types described by values -/

@[simp] theorem extents?_renamed (value : Value) :
    (heap.renamed naming).extents? value = heap.extents? value := by
  cases value with
  | object address =>
      simp only [extents?, get_renamed]
      cases heap.get address <;> rfl
  | _ => rfl

@[simp] theorem positions_renamed (value : Value) :
    (heap.renamed naming).positions value = heap.positions value := by
  cases value with
  | object address =>
      simp only [positions, get_renamed]
      cases heap.get address <;> rfl
  | _ => rfl

@[simp] theorem pairType_renamed (base : Dtype) (value : Value)
    (other : Except Refusal Dtype) :
    (heap.renamed naming).pairType base value other =
      heap.pairType base value other := by
  unfold pairType
  rw [extents?_renamed]

@[simp] theorem columnsType_renamed
    (inner : Bool → Value → Except Refusal Dtype) (aligned : Bool)
    (entries : List (Value × Value)) (names formats : Value) :
    (heap.renamed naming).columnsType inner aligned entries names formats =
      heap.columnsType inner aligned entries names formats := by
  have columns : (heap.renamed naming).column = heap.column := by
    funext entries key size
    unfold column
    simp only [positions_renamed]
  unfold columnsType
  simp only [positions_renamed, columns]

@[simp] theorem dtypeWithin_renamed (depth : Nat) :
    (heap.renamed naming).dtypeWithin depth = heap.dtypeWithin depth := by
  induction depth with
  | zero => rfl
  | succ depth inductionHypothesis =>
      funext aligned value
      unfold dtypeWithin
      simp only [inductionHypothesis, pairType_renamed]
      cases value with
      | object address =>
          simp only [get_renamed]
          cases heap.get address with
          | dict ordered entries =>
              simp only [Object.named, columnsType_renamed]
          | _ => rfl
      | tuple items =>
          rcases items with _ | ⟨type, _ | ⟨other, _ | ⟨third, rest⟩⟩⟩ <;> rfl
      | _ => rfl

@[simp] theorem dtypeOf_renamed (value : Value) :
    (heap.renamed naming).dtypeOf value = heap.dtypeOf value := by
  rw [dtypeOf, dtypeOf, dtypeWithin_renamed]

/-! ## Types rebuilt from records -/

/-- A complaint that quotes a value gives no result. -/
theorem complaint_ne_ok {α : Type} (quoted : Except Refusal Text)
    (cause : Text → Cause) (result : α) :
    (do
      let text ← liftM quoted
      Failure.raise (cause text) : Except Failure α) ≠ .ok result := by
  intro success
  obtain ⟨text, _, raised⟩ := except_bind_eq_ok_iff.mp success
  cases raised

/-- The count and the unit of a time in one text. -/
theorem timeText_renamed {count word unit : Value}
    (found : (if word.matchesKey (.str (Text.ofString Dtype.genericUnit)) then
        return .str []
      else if count.matchesKey (.int 1) then
        return word
      else
        return .str ((← heap.wording count) ++ (← heap.wording word)) :
          Except Failure Value) = .ok unit)
    (unnamed : ∀ text, unit = .str text → ¬ text.HoldsReference) :
    (if word.matchesKey (.str (Text.ofString Dtype.genericUnit)) then
        return .str []
      else if count.matchesKey (.int 1) then
        return word
      else
        return .str ((← (heap.renamed naming).wording count) ++
          (← (heap.renamed naming).wording word)) :
            Except Failure Value) = .ok unit := by
  split at found
  · next isGeneric =>
      rw [if_pos isGeneric]
      exact found
  · next isSpecific =>
      rw [if_neg isSpecific]
      split at found
      · next isSingle =>
          rw [if_pos isSingle]
          exact found
      · next isMultiple =>
          rw [if_neg isMultiple]
          obtain ⟨first, counted, found⟩ := except_bind_eq_ok_iff.mp found
          obtain ⟨second, named, found⟩ := except_bind_eq_ok_iff.mp found
          cases found
          have both := unnamed _ rfl
          have countWorded := heap.wording_renamed naming
            (mapError_eq_ok_iff.mp counted) fun holds =>
              both (holds.of_infix (List.prefix_append _ _).isInfix)
          have unitWorded := heap.wording_renamed naming
            (mapError_eq_ok_iff.mp named) fun holds =>
              both (holds.of_infix (List.suffix_append _ _).isInfix)
          rw [countWorded, unitWorded]
          rfl

/-- The unit of a time is the same if it shows no reference. -/
theorem timeUnit_renamed {record : Record} {unit : Value}
    (found : heap.timeUnit record = .ok unit)
    (unnamed : ∀ text, unit = .str text → ¬ text.HoldsReference) :
    (heap.renamed naming).timeUnit record = .ok unit := by
  unfold timeUnit at found ⊢
  simp only [item_renamed, firstTwo_renamed] at found ⊢
  split at found
  · exact found
  · split at found
    · cases found
    · exact absurd found (complaint_ne_ok _ _ unit)
    · split at found
      · split at found
        · next isAscii =>
            rw [if_pos isAscii]
            exact timeText_renamed naming heap found unnamed
        · cases found
      · exact timeText_renamed naming heap found unnamed

/-- The code of a time shows no reference, so its unit shows none. -/
theorem carries_timeType (kind : ElementKind) (record : Record) :
    Carries id (heap.timeType kind record)
      ((heap.renamed naming).timeType kind record) := by
  intro type success
  unfold timeType at success ⊢
  obtain ⟨unit, found, success⟩ := except_bind_eq_ok_iff.mp success
  obtain ⟨isFixed, asked, success⟩ := except_bind_eq_ok_iff.mp success
  have truth : heap.isTrue unit = .ok isFixed := mapError_eq_ok_iff.mp asked
  have asksAgain : (liftM ((heap.renamed naming).isTrue unit) :
      Except Failure Bool) = .ok isFixed := by
    rw [isTrue_renamed]
    exact asked
  cases isFixed with
  | true =>
      obtain ⟨word, worded, coded⟩ := except_bind_eq_ok_iff.mp success
      have wording : heap.wording unit = .ok word :=
        mapError_eq_ok_iff.mp worded
      let suffix : Text := List.flatten ["[", word, "]"]
      have isSuffix : word <:+: suffix := List.infix_of_mem_flatten (by simp)
      have isPart : word <:+: List.flatten [kind.letter, "8", suffix] :=
        Notation.infix_flatten isSuffix (by simp)
      have plain : ¬ word.HoldsReference := fun holds =>
        Dtype.not_holdsReference_of_text (mapError_eq_ok_iff.mp coded)
          (holds.of_infix isPart)
      have unitAgain := timeUnit_renamed naming heap found fun text isText => by
        subst isText
        cases wording
        exact plain
      rw [except_bind_of_eq_ok unitAgain, except_bind_of_eq_ok asksAgain]
      dsimp only
      rw [if_pos rfl, heap.wording_renamed naming wording plain]
      exact coded
  | false =>
      have unitAgain := timeUnit_renamed naming heap found fun text isText => by
        subst isText
        cases text with
        | nil => exact fun holds => absurd holds.length_le (by decide)
        | cons point rest => cases truth
      rw [except_bind_of_eq_ok unitAgain, except_bind_of_eq_ok asksAgain]
      exact success

theorem carries_timed (base : Dtype) (record : Record)
    (finish : Dtype → Except Failure Dtype) :
    Carries id
      (if base.kind = .timedelta ∨ base.kind = .datetime then
        heap.timeType base.kind record >>= finish
      else pure base >>= finish)
      (if base.kind = .timedelta ∨ base.kind = .datetime then
        (heap.renamed naming).timeType base.kind record >>= finish
      else pure base >>= finish) := by
  split
  · exact .bind (carries_timeType naming heap _ record) fun type => .refl _
  · exact .refl _

theorem carries_elementType (code : Text) (record : Record) :
    Carries id (heap.elementType code record)
      ((heap.renamed naming).elementType code record) := by
  unfold elementType
  refine .bind (.refl _) fun base => ?_
  dsimp only [id]
  split
  · refine .bind (.refl _) fun isPositive => ?_
    dsimp only [id]
    split
    · exact .bind (.refl _) fun base => carries_timed naming heap base _ _
    · exact carries_timed naming heap base record _
  · exact carries_timed naming heap base record _

variable {naming heap}

section Convert

variable {convert other : Value → Except Failure Dtype}
variable (carries : ∀ value, Carries id (convert value) (other value))

include carries

theorem carries_fieldOfRecord (fields name : Value) :
    Carries id (heap.fieldOfRecord convert fields name)
      ((heap.renamed naming).fieldOfRecord other fields name) := by
  unfold fieldOfRecord
  rw [item_renamed]
  refine .bind (.refl _) fun described => ?_
  dsimp only [id]
  rw [firstTwo_renamed]
  refine .bind (.refl _) fun ⟨type, offset⟩ => ?_
  exact .bind (carries type) fun type => .refl _

theorem carries_structType (record : Record) (names : Value) :
    Carries id (heap.structType convert record names)
      ((heap.renamed naming).structType other record names) := by
  have laidOut : ∀ (isAbsent : Bool) (fields : Value)
      (finish : List (Value × Dtype × Value) → Except Failure Dtype),
      Carries id
        ((heap.iterate names).mapError Failure.refused >>= fun listed =>
          listed.1.mapM (fun name =>
            if isAbsent then .error (.refused .missingKey)
            else heap.fieldOfRecord convert fields name) >>= finish)
        (((heap.renamed naming).iterate names).mapError Failure.refused >>=
          fun listed => listed.1.mapM (fun name =>
            if isAbsent then .error (.refused .missingKey)
            else (heap.renamed naming).fieldOfRecord other fields name) >>=
              finish) := by
    intro isAbsent fields finish
    refine .bind (.mapError (carries_iterate naming heap names))
      fun listed => ?_
    refine .bind (.mapM listed.1 fun name => ?_) fun found => .refl _
    split
    · exact .error _ _
    · exact carries_fieldOfRecord carries fields name
  unfold structType
  simp only [isTrue_renamed]
  refine .bind (.refl _) fun hasFields => ?_
  dsimp only [id]
  split
  · exact laidOut _ _ _
  · exact laidOut _ _ _

theorem carries_described (code : Text) (record : Record)
    (described : Value) :
    Carries id
      (match described with
        | .tuple [base, shape] => do
            let base ← convert base
            let (extents, _) ← heap.iterate shape
            heap.pairType base (.tuple extents) (.error .wrongType)
        | .none => do
            let names := record.field "names"
            if ← heap.isTrue names then
              heap.structType convert record names
            else
              heap.elementType code record
        | value => do Failure.raise (.badSubarray (← heap.quote value)))
      (match described with
        | .tuple [base, shape] => do
            let base ← other base
            let (extents, _) ← (heap.renamed naming).iterate shape
            (heap.renamed naming).pairType base (.tuple extents)
              (.error .wrongType)
        | .none => do
            let names := record.field "names"
            if ← (heap.renamed naming).isTrue names then
              (heap.renamed naming).structType other record names
            else
              (heap.renamed naming).elementType code record
        | value => do
            Failure.raise
              (.badSubarray (← (heap.renamed naming).quote value))) := by
  have complains : ∀ value : Value, Carries id
      (do Failure.raise (.badSubarray (← heap.quote value)) :
        Except Failure Dtype)
      (do Failure.raise (.badSubarray
        (← (heap.renamed naming).quote value)) : Except Failure Dtype) :=
    fun value type found => absurd found (complaint_ne_ok _ _ type)
  split
  · next base shape =>
      refine .bind (carries base) fun base => ?_
      refine .bind (.mapError (carries_iterate naming heap shape))
        fun ⟨extents, after⟩ => ?_
      exact .of_eq (by simp only [carry, pairType_renamed, id])
  · dsimp only
    rw [isTrue_renamed]
    refine .bind (.refl _) fun isStructure => ?_
    dsimp only [id]
    split
    · exact carries_structType carries record _
    · exact carries_elementType naming heap code record
  · exact complains _

/-- The names of a record play no part in the type that it rebuilds. -/
theorem carries_ofRecord (record : Record) (key? : Option TypeKey) :
    Carries id (convertDtype.ofRecord heap convert record)
      (convertDtype.ofRecord (heap.renamed naming) other
        (record.named key?)) := by
  have unnamed : convertDtype.ofRecord (heap.renamed naming) other
      (record.named key?) =
        convertDtype.ofRecord (heap.renamed naming) other record := by
    cases key? <;> rfl
  rw [unnamed]
  unfold convertDtype.ofRecord
  dsimp only
  split
  · exact carries_described carries _ record _
  · split
    · exact carries_described carries _ record _
    · exact .error _ _
  · refine fun type found => ?_
    obtain ⟨text, _, found⟩ := except_bind_eq_ok_iff.mp found
    cases found

end Convert

theorem carries_convertDtype (depth : Nat) (value : Value) :
    Carries id (heap.convertDtype depth value)
      ((heap.renamed naming).convertDtype depth value) := by
  induction depth generalizing value with
  | zero => exact .error _ _
  | succ depth inductionHypothesis =>
      rw [convertDtype, convertDtype, record?_renamed]
      cases heap.record? value with
      | none => exact .of_eq (by rw [Option.map_none, dtypeOf_renamed])
      | some found =>
          obtain ⟨address, record⟩ := found
          simp only [Option.map_some, Record.kind_named]
          split
          · exact carries_ofRecord inductionHypothesis record _
          · exact .error _ _

theorem carries_toDtype (value : Value) :
    Carries id (heap.toDtype value)
      ((heap.renamed naming).toDtype value) := by
  unfold toDtype
  rw [size_renamed]
  exact carries_convertDtype _ value

theorem carries_payloadDtype (value : Value) :
    Carries id (heap.payloadDtype value)
      ((heap.renamed naming).payloadDtype value) := by
  intro type success
  unfold payloadDtype at success ⊢
  split at success
  · next known =>
      cases success
      rw [carries_toDtype value _ known]
  · exact absurd success (complaint_ne_ok _ _ _)
  · split at success
    · exact absurd success (complaint_ne_ok _ _ _)
    · exact absurd success (complaint_ne_ok _ _ _)
    · exact absurd success (complaint_ne_ok _ _ _)
    · exact absurd success (complaint_ne_ok _ _ _)
    · exact absurd success (complaint_ne_ok _ _ _)
    · cases success
  · cases success

/-! ## Arrays -/

variable (naming heap)

@[simp] theorem buffer?_renamed (value : Value) :
    (heap.renamed naming).buffer? value = heap.buffer? value := by
  unfold buffer?
  split
  · rfl
  · next address _ =>
      rw [get_renamed]
      cases heap.get address <;> rfl
  · rfl

@[simp] theorem length_renamed (value : Value) :
    (heap.renamed naming).length value = heap.length value := by
  unfold length
  split
  · rfl
  · rfl
  · rfl
  · rfl
  · next address _ =>
      rw [get_renamed]
      cases heap.get address <;> rfl
  · rfl

@[simp] theorem lend_renamed (type : Dtype) (value : Value) :
    (heap.renamed naming).lend type value = heap.lend type value := by
  rw [lend, lend, buffer?_renamed]

@[simp] theorem lentArray?_renamed (value : Value) :
    (heap.renamed naming).lentArray? value = heap.lentArray? value := by
  cases value with
  | object address =>
      simp only [lentArray?, get_renamed]
      cases heap.get address with
      | view view =>
          simp only [Object.named]
          cases heap.get view.source <;> rfl
      | _ => rfl
  | _ => rfl

theorem carry_elementValue (type : Dtype) (data : Bytes) :
    (heap.renamed naming).elementValue type data =
      carry naming (heap.elementValue type data) := by
  unfold elementValue
  split
  · exact carry_float naming heap _
  · exact carry_complex naming heap _ _
  · rfl
  · rfl

theorem carry_elementValues (array : NdArray) :
    (heap.renamed naming).elementValues array =
      carry naming (heap.elementValues array) := by
  unfold elementValues
  split
  · rfl
  · refine carry_foldl naming ?_ _ ([], heap)
    intro state element
    have made := carry_elementValue naming state.2 array.type element
    simp only [carry] at made ⊢
    rw [made]

theorem carry_spread (count : Nat) (value : Value) :
    (heap.renamed naming).spread count value =
      (heap.spread count value).map (carry naming) := by
  unfold spread
  rw [lentArray?_renamed]
  split
  · split
    · rw [carry_elementValues]
      rfl
    · rfl
  · split
    · rfl
    · next address _ =>
        rw [get_renamed]
        cases heap.get address <;> rfl
    · rfl

variable {naming heap}

theorem carries_arrayOfRecord (record : Record) (key? : Option TypeKey) :
    Carries (carry naming) (heap.arrayOfRecord record)
      ((heap.renamed naming).arrayOfRecord (record.named key?)) := by
  have unnamed : (heap.renamed naming).arrayOfRecord (record.named key?) =
      (heap.renamed naming).arrayOfRecord record := by
    cases key? <;> rfl
  rw [unnamed]
  unfold arrayOfRecord
  refine .bind (.mapError (carries_iterate naming heap _))
    fun ⟨extents, heap⟩ => ?_
  refine .bind (carries_toDtype _) fun type => ?_
  dsimp only [carry, id]
  rw [isTrue_renamed]
  refine .bind (.refl _) fun firstFastest => ?_
  dsimp only [id]
  split
  · rw [length_renamed]
    refine .bind (.refl _) fun count => ?_
    have spreads := Carries.of_map
      (carry_spread naming heap count (record.field "data"))
    refine .bind (.mapError spreads) fun ⟨values, heap⟩ => ?_
    refine .bind (.refl _) fun extents => ?_
    exact .bind (.refl _) fun array => .ok (array, heap)
  · refine .bind (.refl _) fun data => ?_
    refine .bind (.refl _) fun count => ?_
    dsimp only [id]
    rw [length_renamed]
    refine .bind (.refl _) fun length => ?_
    dsimp only [id]
    split
    · exact .error _ _
    · rw [lend_renamed]
      refine .bind (.refl _) fun line => ?_
      refine .bind (.refl _) fun extents => ?_
      exact .bind (.refl _) fun array => .ok (array, heap)

end Heap

end PickleGraph
