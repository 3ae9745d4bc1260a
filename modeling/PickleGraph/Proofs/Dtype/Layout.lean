import PickleGraph.Dtype.OfValue
import PickleGraph.Proofs.Array.Rebuilding
import PickleGraph.Proofs.Dtype.Code

/-!
# Types and their layouts

A type is made of elements of the kinds and sizes that there are, of subarrays
of types that are no subarrays, and of structures that lay out types under
names. From its parts it is made again: the subarray from its base and extents,
and the structure from its names, types, offsets and size.
-/

namespace PickleGraph

open Actions

namespace Dtype

/-! ## Valid types -/

def IsSubarray : Dtype → Prop
  | subarray _ _ => True
  | _ => False

/-- Extents that elements of a type can be repeated by. -/
structure Repeats (base : Dtype) (shape : List Nat) : Prop where
  nonempty : shape ≠ []
  few : shape.length ≤ maxDimensions
  small : ∀ extent ∈ shape, (extent : Int) ≤ maxInt
  smallCount : (shape.prod : Int) ≤ maxInt
  smallSize : (base.itemSize : Int) * shape.prod ≤ maxInt

/-- Fields that a structure of this size can have: one at least, under names
that all differ, and apart from each other where they hold references. -/
structure LaysOut (fields : List (Text × Nat × Dtype)) (size : Nat) :
    Prop where
  nonempty : fields ≠ []
  distinct : (fields.map (·.1)).Nodup
  inside : ∀ field ∈ fields, field.2.1 + field.2.2.itemSize ≤ size
  small : (size : Int) ≤ maxInt
  apart : overlapsObject fields = false

/-- The types that there are. Only times have units. -/
inductive IsValid : Dtype → Prop
  | element {kind : ElementKind} {size : Nat} {bigEndian : Bool} :
      kind.Admits size →
      (bigEndian = true → kind.hasByteOrder size = true) →
      IsValid (.element kind size bigEndian none)
  | time {kind : ElementKind} {bigEndian : Bool} {unit : TimeUnit} :
      kind = .timedelta ∨ kind = .datetime → unit.IsValid →
      IsValid (.element kind 8 bigEndian (some unit))
  | subarray {base : Dtype} {shape : List Nat} :
      base.IsValid → ¬ base.IsSubarray → base.Repeats shape →
      IsValid (.subarray base shape)
  | struct {fields : List (Text × Nat × Dtype)} {size : Nat} :
      (∀ field ∈ fields, IsValid field.2.2) → LaysOut fields size →
      IsValid (.struct fields size)

end Dtype

theorem ElementKind.Admits.pos {kind : ElementKind} {size : Nat}
    (admits : kind.Admits size) : 0 < size := by
  unfold ElementKind.Admits at admits
  cases kind with
  | bytes | void => exact admits.1
  | text =>
      obtain ⟨length, positive, _, rfl⟩ := admits
      omega
  | variableText => cases admits
  | boolean | timedelta | datetime | object =>
      subst admits
      decide
  | signed | unsigned | float | complex =>
      revert size
      decide

namespace Dtype

theorem IsValid.checkField {type : Dtype} (isValid : type.IsValid) :
    Dtype.checkField type = .ok () := by
  cases isValid with
  | @element kind _ _ admits _ =>
      cases kind with
      | variableText => cases admits
      | _ => rfl
  | time isTime _ => rcases isTime with rfl | rfl <;> rfl
  | subarray _ _ _ => rfl
  | struct _ _ => rfl

theorem IsValid.isUnsized {type : Dtype} (isValid : type.IsValid)
    (noSubarray : ¬ type.IsSubarray) : type.isUnsized = false := by
  cases isValid with
  | element admits _ => exact beq_false_of_ne (Nat.ne_of_gt admits.pos)
  | time _ _ => rfl
  | subarray _ _ _ => exact absurd trivial noSubarray
  | struct _ _ => rfl

section Elements

variable {kind : ElementKind} {size : Nat} {bigEndian : Bool}
  {unit : Option TimeUnit}
  (isValid : (Dtype.element kind size bigEndian unit).IsValid)

include isValid

theorem IsValid.admits : kind.Admits size := by
  cases isValid with
  | element admits _ => exact admits
  | time isTime _ => rcases isTime with rfl | rfl <;> rfl

theorem IsValid.unit_isValid (known : TimeUnit) (isUnit : unit = some known) :
    known.IsValid := by
  subst isUnit
  cases isValid with
  | time _ isKnown => exact isKnown

/-- Only elements in an order have the other one. -/
theorem IsValid.bigEndian_eq_false
    (noOrder : kind.hasByteOrder size = false) : bigEndian = false := by
  cases isValid with
  | element _ ordered =>
      cases bigEndian with
      | false => rfl
      | true => exact absurd (ordered rfl) (by simp [noOrder])
  | time isTime _ => rcases isTime with rfl | rfl <;> cases noOrder

end Elements

/-! ## Subarrays -/

section Subarrays

variable {base : Dtype} {shape : List Nat} (repeats : base.Repeats shape)

include repeats

theorem Repeats.withShape_eq :
    base.withShape (shape.map Int.ofNat) = .ok (.subarray base shape) := by
  have few : ¬ maxDimensions < (shape.map Int.ofNat).length := by
    rw [List.length_map]
    exact Nat.not_lt.mpr repeats.few
  have inRange : (shape.map Int.ofNat).all
      (fun number => 0 ≤ number && number ≤ maxInt) = true := by
    simp only [List.all_map, List.all_eq_true, Function.comp_apply,
      Bool.and_eq_true, decide_eq_true_eq]
    exact fun extent member =>
      ⟨Int.natCast_nonneg extent, repeats.small extent member⟩
  have notMany : ¬ maxInt < (shape.prod : Int) :=
    Int.not_lt.mpr repeats.smallCount
  have notLarge : ¬ maxInt < (base.itemSize : Int) * shape.prod :=
    Int.not_lt.mpr repeats.smallSize
  have back : (shape.map Int.ofNat).map Int.toNat = shape := by
    rw [List.map_map]
    exact List.map_id _
  unfold withShape
  dsimp only
  rw [foldl_mul_ofNat, inRange, back]
  simp only [few, notMany, notLarge, Bool.not_true, Bool.false_eq_true,
    or_self, if_false]

theorem Repeats.pairType_eq (isSized : base.isUnsized = false)
    (heap : Heap) (other : Except Refusal Dtype) :
    heap.pairType base (.tuple (shape.map extentValue)) other =
      .ok (.subarray base shape) := by
  have extents : heap.extents? (.tuple (shape.map extentValue)) =
      some (shape.map Int.ofNat) := by
    show (shape.map extentValue).mapM Value.exactInt? = _
    rw [List.mapM_map]
    exact List.mapM_pure
  have nonempty : (shape.map Int.ofNat).isEmpty = false := by
    rw [List.isEmpty_map]
    exact List.isEmpty_eq_false_iff.mpr repeats.nonempty
  have reshaped : base.reshaped (shape.map Int.ofNat) =
      .ok (.subarray base shape) := by
    unfold reshaped
    rw [isSized, nonempty]
    exact repeats.withShape_eq
  have noNumber : Value.exactInt? (.tuple (shape.map extentValue)) = none :=
    rfl
  unfold Heap.pairType
  rw [noNumber, isSized, extents]
  exact reshaped

end Subarrays

/-! ## Structures -/

/-- A field at its place. -/
def specOf (field : Text × Nat × Dtype) : FieldSpec :=
  ⟨field.1, none, field.2.2, some field.2.1⟩

/-- Where the last of some fields ends. -/
def endOf (before : Nat) (fields : List (Text × Nat × Dtype)) : Nat :=
  fields.foldl
    (fun size field => max size (field.2.1 + field.2.2.itemSize)) before

theorem checkInt_natCast {number : Nat} (small : (number : Int) ≤ maxInt) :
    checkInt number = .ok (number : Int) := by
  unfold maxInt at small
  unfold checkInt
  rw [if_neg (by omega), if_neg (by omega)]

theorem placeFields_specOf {fields : List (Text × Nat × Dtype)}
    {size before : Nat} (small : (size : Int) ≤ maxInt)
    (inside : ∀ field ∈ fields, field.2.1 + field.2.2.itemSize ≤ size) :
    placeFields false before (fields.map specOf) =
      .ok (fields, endOf before fields) := by
  induction fields generalizing before with
  | nil => rfl
  | cons field rest inductionHypothesis =>
      obtain ⟨name, offset, type⟩ := field
      have isInside := inside (name, offset, type) List.mem_cons_self
      have smallOffset : (offset : Int) ≤ maxInt := by
        dsimp only at isInside
        omega
      have others : placeFields false (max before (offset + type.itemSize))
          (rest.map specOf) = .ok (rest, endOf _ rest) :=
        inductionHypothesis fun other member =>
          inside other (List.mem_cons_of_mem _ member)
      have placed : placeField false before (specOf (name, offset, type)) =
          .ok (offset, max before (offset + type.itemSize)) := by
        refine except_bind_eq_ok_iff.mpr
          ⟨(offset : Int), checkInt_natCast smallOffset, ?_⟩
        have noFault : ¬ ((offset : Int) < 0 ∨
            (offset : Int).toNat % 1 ≠ 0) := by
          omega
        exact if_neg noFault
      refine except_bind_eq_ok_iff.mpr ⟨_, placed, ?_⟩
      exact except_bind_eq_ok_iff.mpr ⟨_, others, rfl⟩

theorem endOf_le {fields : List (Text × Nat × Dtype)} {size before : Nat}
    (start : before ≤ size)
    (inside : ∀ field ∈ fields, field.2.1 + field.2.2.itemSize ≤ size) :
    endOf before fields ≤ size := by
  induction fields generalizing before with
  | nil => exact start
  | cons field rest inductionHypothesis =>
      refine inductionHypothesis
        (Nat.max_le.mpr ⟨start, inside field List.mem_cons_self⟩)
        fun other member => inside other (List.mem_cons_of_mem _ member)

theorem eraseDups_of_nodup {names : List Text} (distinct : names.Nodup) :
    names.eraseDups = names := by
  induction names with
  | nil => rfl
  | cons name rest inductionHypothesis =>
      obtain ⟨isNew, others⟩ := List.nodup_cons.mp distinct
      have kept : rest.filter (fun other => !other == name) = rest := by
        refine List.filter_eq_self.mpr fun other member => ?_
        have differs : other ≠ name := by
          rintro rfl
          exact isNew member
        simp [differs]
      rw [List.eraseDups_cons, kept, inductionHypothesis others]

/-- Fields without titles have names that differ. -/
theorem distinctNames_of_nodup {specs : List FieldSpec}
    (untitled : ∀ spec ∈ specs, spec.title = none)
    (distinct : (specs.map (·.name)).Nodup) : distinctNames specs = true := by
  have names : ∀ listed : FieldSpec → List Text,
      (∀ spec, spec.title = none → listed spec = [spec.name]) →
        specs.flatMap listed = specs.map (·.name) := by
    intro listed alone
    clear distinct
    induction specs with
    | nil => rfl
    | cons spec rest inductionHypothesis =>
        obtain ⟨isUntitled, others⟩ := List.forall_mem_cons.mp untitled
        rw [List.flatMap_cons, alone spec isUntitled,
          inductionHypothesis others]
        rfl
  unfold distinctNames
  dsimp only
  rw [names, eraseDups_of_nodup distinct]
  · exact beq_self_eq_true _
  · intro spec isUntitled
    rw [isUntitled]

theorem forM_checkField {specs : List FieldSpec}
    (areFields : ∀ spec ∈ specs, Dtype.checkField spec.type = .ok ()) :
    specs.forM (fun spec => Dtype.checkField spec.type) = .ok () := by
  induction specs with
  | nil => rfl
  | cons spec rest inductionHypothesis =>
      obtain ⟨isField, others⟩ := List.forall_mem_cons.mp areFields
      exact except_bind_eq_ok_iff.mpr
        ⟨(), isField, inductionHypothesis others⟩

theorem alignUp_one (total : Nat) : alignUp total 1 = total := by
  unfold alignUp
  omega

/-- A structure is made from its fields and, unless it is empty, its size. -/
theorem LaysOut.ofFields_eq {fields : List (Text × Nat × Dtype)}
    {size : Nat} (laysOut : LaysOut fields size)
    (areValid : ∀ field ∈ fields, field.2.2.IsValid) :
    ofFields false (fields.map specOf)
        (if 0 < size then some (size : Int) else none) =
      .ok (.struct fields size) := by
  have placed : placeFields false 0 (fields.map specOf) =
      .ok (fields, endOf 0 fields) :=
    placeFields_specOf laysOut.small laysOut.inside
  have ends : endOf 0 fields ≤ size :=
    endOf_le (Nat.zero_le size) laysOut.inside
  have areFields : ∀ spec ∈ fields.map specOf,
      Dtype.checkField spec.type = .ok () :=
    List.forall_mem_map.mpr fun field isField =>
      (areValid field isField).checkField
  have untitled : ∀ spec ∈ fields.map specOf, spec.title = none :=
    List.forall_mem_map.mpr fun _ _ => rfl
  have distinct : ((fields.map specOf).map (·.name)).Nodup := by
    rw [List.map_map]
    exact laysOut.distinct
  refine except_bind_eq_ok_iff.mpr ⟨(), forM_checkField areFields, ?_⟩
  dsimp only
  rw [distinctNames_of_nodup untitled distinct, if_neg (by decide)]
  refine except_bind_eq_ok_iff.mpr ⟨_, placed, ?_⟩
  dsimp only
  rw [laysOut.apart, if_neg Bool.false_ne_true, if_neg Bool.false_ne_true,
    alignUp_one]
  by_cases isEmpty : size = 0
  · have noEnd : endOf 0 fields = 0 := by omega
    rw [if_neg (by omega), noEnd, isEmpty]
    rfl
  · rw [if_pos (Nat.pos_of_ne_zero isEmpty)]
    refine except_bind_eq_ok_iff.mpr
      ⟨_, checkInt_natCast laysOut.small, ?_⟩
    have noFault : ¬ ((size : Int) < (endOf 0 fields : Nat) ∨
        (size : Int).toNat % 1 ≠ 0) := by
      omega
    exact if_neg noFault

/-! ## Fields that follow each other -/

/-- A field whose place is left open. -/
def openSpec (field : Text × Dtype) : FieldSpec :=
  ⟨field.1, none, field.2, none⟩

theorem placeFields_openSpec (before : Nat) (fields : List (Text × Dtype)) :
    placeFields false before (fields.map openSpec) =
      .ok (placed before fields,
        fields.foldl (fun size field => size + field.2.itemSize) before) := by
  induction fields generalizing before with
  | nil => rfl
  | cons field rest inductionHypothesis =>
      obtain ⟨name, type⟩ := field
      have here : placeField false before (openSpec (name, type)) =
          .ok (before, before + type.itemSize) := by
        show Except.ok (alignUp before 1, alignUp before 1 + type.itemSize) = _
        rw [alignUp_one]
      refine except_bind_eq_ok_iff.mpr ⟨_, here, ?_⟩
      exact except_bind_eq_ok_iff.mpr
        ⟨_, inductionHypothesis (before + type.itemSize), rfl⟩

theorem le_of_mem_placed {offset : Nat} {fields : List (Text × Dtype)}
    {field : Text × Nat × Dtype} (member : field ∈ placed offset fields) :
    offset ≤ field.2.1 := by
  induction fields generalizing offset with
  | nil => cases member
  | cons first rest inductionHypothesis =>
      rcases List.mem_cons.mp member with rfl | later
      · exact Nat.le_refl offset
      · exact Nat.le_trans (Nat.le_add_right offset _)
          (inductionHypothesis later)

/-- No field begins before the one in front of it ends. -/
theorem overlapsObject_placed (offset : Nat) (fields : List (Text × Dtype)) :
    overlapsObject (placed offset fields) = false := by
  induction fields generalizing offset with
  | nil => rfl
  | cons first rest inductionHypothesis =>
      obtain ⟨name, type⟩ := first
      rw [placed, overlapsObject, inductionHypothesis, Bool.or_false,
        List.any_eq_false]
      intro later member
      have behind : offset + type.itemSize ≤ later.2.1 :=
        le_of_mem_placed member
      simp [behind]

theorem ofFields_openSpec {fields : List (Text × Dtype)}
    (areFields : ∀ field ∈ fields, Dtype.checkField field.2 = .ok ())
    (distinct : (fields.map (·.1)).Nodup) :
    ofFields false (fields.map openSpec) none = .ok (packed fields) := by
  have areSpecs : ∀ spec ∈ fields.map openSpec,
      Dtype.checkField spec.type = .ok () :=
    List.forall_mem_map.mpr areFields
  have untitled : ∀ spec ∈ fields.map openSpec, spec.title = none :=
    List.forall_mem_map.mpr fun _ _ => rfl
  have names : ((fields.map openSpec).map (·.name)).Nodup := by
    rw [List.map_map]
    exact distinct
  refine except_bind_eq_ok_iff.mpr ⟨(), forM_checkField areSpecs, ?_⟩
  dsimp only
  rw [distinctNames_of_nodup untitled names, if_neg (by decide)]
  refine except_bind_eq_ok_iff.mpr ⟨_, placeFields_openSpec 0 fields, ?_⟩
  dsimp only
  rw [overlapsObject_placed, if_neg Bool.false_ne_true,
    if_neg Bool.false_ne_true, alignUp_one]
  rfl

end Dtype

end PickleGraph
