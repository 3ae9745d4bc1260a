import PickleGraph.Proofs.Array.Reading
import PickleGraph.Proofs.Array.Rebuilding

/-!
# Headers of types with a code

The header of an array whose type has a code is a mapping of three entries: the
code, the order and the shape.
-/

namespace PickleGraph

open Actions

variable {type : Dtype} {shape : List Nat} {firstFastest : Bool}
variable {heap : Heap} {code : Text} {names : CharacterNames}

theorem Heap.toDtype_str (isType : Dtype.ofText code = .ok type) :
    heap.toDtype (.str code) = .ok type := by
  have described : heap.dtypeOf (.str code) = .ok type := isType
  show liftM (heap.dtypeOf (.str code)) = (.ok type : Except Failure Dtype)
  rw [described]
  rfl

namespace Payload

open Decoding

/-! ## Evaluation -/

def headerLiteral (code : Text) (shape : List Nat) (firstFastest : Bool) :
    Literal :=
  .dict
    [(.str (Text.ofString "descr"), .str code),
      (.str (Text.ofString "fortran_order"), .bool firstFastest),
      (.str (Text.ofString "shape"), .tuple (shape.map Literal.int))]

def headerEntries (code : Text) (shape : List Nat) (firstFastest : Bool) :
    List (Value × Value) :=
  Entries.merge [] (Entries.named
    [("descr", .str code), ("fortran_order", .bool firstFastest),
      ("shape", .tuple (shape.map extentValue))])

theorem evaluateAll_extents (shape : List Nat) (heap : Heap) :
    Literal.evaluate.evaluateAll (shape.map Literal.int) heap =
      .ok (shape.map extentValue, heap) := by
  induction shape with
  | nil => rfl
  | cons extent rest inductionHypothesis =>
      have first : (Literal.int extent).evaluate heap =
          .ok (extentValue extent, heap) := by
        simp [Literal.evaluate, Literal.numberValue, Literal.signedNumeral?,
          Literal.numeral?, extentValue]
      rw [List.map_cons, Literal.evaluate.evaluateAll]
      refine except_bind_eq_ok_iff.mpr ⟨_, first, ?_⟩
      exact except_bind_eq_ok_iff.mpr ⟨_, inductionHypothesis, rfl⟩

theorem evaluate_headerLiteral (code : Text) (shape : List Nat)
    (firstFastest : Bool) (heap : Heap) :
    (headerLiteral code shape firstFastest).evaluate heap =
      .ok (heap.alloc
        (.dict false (headerEntries code shape firstFastest))) := by
  simp only [headerLiteral, Literal.evaluate,
    Literal.evaluate.evaluateEntries, evaluateAll_extents]
  rfl

/-! ## Entries -/

theorem shapeOf?_extents (shape : List Nat) (heap : Heap) :
    shapeOf? heap (.tuple (shape.map extentValue)) = some shape := by
  unfold shapeOf?
  dsimp only
  rw [List.mapM_map]
  induction shape with
  | nil => rfl
  | cons extent rest inductionHypothesis =>
      rw [List.mapM_cons, inductionHypothesis]
      simp [extentValue]

theorem denotes_of_parse {text : Text}
    (parsed : Literal.parse? names text =
      some (headerLiteral code shape firstFastest))
    (isType : Dtype.ofText code = .ok type) :
    Denotes names text heap ⟨type, shape, firstFastest⟩
      (heap.alloc
        (.dict false (headerEntries code shape firstFastest))).2 := by
  have entry : ∀ name,
      Entries.findText? name (headerEntries code shape firstFastest) = _ :=
    fun name => Entries.findText?_merge_named name [] _
  have here := Heap.get_alloc_self heap
    (.dict false (headerEntries code shape firstFastest))
  refine ⟨_, _, _, headerEntries code shape firstFastest, .str code,
    .tuple (shape.map extentValue), .str code, parsed,
    evaluate_headerLiteral code shape firstFastest heap, ?_, entry "descr",
    entry "fortran_order", entry "shape", shapeOf?_extents shape _, ?_,
    payloadDtype_eq_ok (Heap.toDtype_str isType)⟩
  · simp only [Heap.entries?, Heap.alloc] at here ⊢
    rw [here]
  · exact .heap_bind (.pure _)

end Payload

end PickleGraph
