import PickleGraph.Proofs.Defect.Reader
import PickleGraph.Proofs.Text.Utf8

/-!
# Texts in ASCII

Under the rules for texts in ASCII the octets below 128 are characters, and a
string that holds any other octet is a defect.
-/

namespace PickleGraph

/-- All octets are below 128. -/
def Bytes.IsAscii (content : Bytes) : Prop :=
  ∀ byte ∈ content, byte < 0x80

theorem Bytes.isAscii_nil : Bytes.IsAscii [] := by
  intro byte member
  cases member

theorem Bytes.isAscii_cons {byte : UInt8} {rest : Bytes} :
    Bytes.IsAscii (byte :: rest) ↔ byte < 0x80 ∧ Bytes.IsAscii rest :=
  List.forall_mem_cons

namespace Utf8

theorem decodeFrom_ascii (position : Nat) {content : Bytes}
    (isAscii : content.IsAscii) :
    decodeFrom next position content = .ok (Text.ofLatin1 content) := by
  induction content generalizing position with
  | nil =>
      rw [decodeFrom]
      rfl
  | cons byte rest inductionHypothesis =>
      obtain ⟨first, others⟩ := Bytes.isAscii_cons.mp isAscii
      have decoded := inductionHypothesis (position + 1) others
      have step : next byte rest = .point (CodePoint.ofByte byte) 1 :=
        (next_ascii rest (UInt8.lt_iff_toNat_lt.mp first)).trans
          (congrArg (Step.point · 1) (ofNat_eq (CodePoint.ofByte byte) rfl))
      rw [decodeFrom, step]
      simp only [Nat.sub_self, List.drop_zero, decoded]
      rfl

theorem decode_ascii {content : Bytes} (isAscii : content.IsAscii) :
    decode content = .ok (Text.ofLatin1 content) :=
  decodeFrom_ascii 0 isAscii

end Utf8

namespace Charset

theorem decodeFrom_ascii (recovery : Text) (position : Nat) {content : Bytes}
    (isAscii : content.IsAscii) :
    decodeFrom .ascii recovery position content =
      .ok (Text.ofLatin1 content) := by
  induction content generalizing position with
  | nil =>
      rw [decodeFrom]
      rfl
  | cons byte rest inductionHypothesis =>
      obtain ⟨first, others⟩ := Bytes.isAscii_cons.mp isAscii
      have decoded := inductionHypothesis (position + 1) others
      rw [decodeFrom, nextPiece, if_pos first]
      simp only [Nat.sub_self, List.drop_zero, decoded]
      rfl

theorem decodeFrom_not_ascii (position : Nat) {content : Bytes}
    (notAscii : ¬ content.IsAscii) :
    ∃ charset bytes place reason,
      decodeFrom .ascii strictName position content =
        .error (.undecodable charset bytes place reason) := by
  induction content generalizing position with
  | nil => exact absurd Bytes.isAscii_nil notAscii
  | cons byte rest inductionHypothesis =>
      rw [decodeFrom, nextPiece]
      by_cases first : byte < 0x80
      · have later : ¬ Bytes.IsAscii rest := fun others =>
          notAscii (Bytes.isAscii_cons.mpr ⟨first, others⟩)
        obtain ⟨charset, bytes, place, reason, failed⟩ :=
          inductionHypothesis (position + 1) later
        refine ⟨charset, bytes, place, reason, ?_⟩
        rw [if_pos first]
        simp only [Nat.sub_self, List.drop_zero, failed]
        rfl
      · rw [if_neg first, recovery_strictName]
        exact ⟨_, _, _, _, rfl⟩

end Charset

namespace TextRules

theorem charset_ascii : Charset.ofName? ascii.charset = some .ascii := by
  decide

theorem decode_ascii {content : Bytes} (isAscii : content.IsAscii) :
    ascii.decode content = .ok (.str (Text.ofLatin1 content)) := by
  have decoded : Charset.decodeNamed ascii.charset ascii.recovery content =
      .ok (Text.ofLatin1 content) := by
    rw [Charset.decodeNamed_of_known charset_ascii]
    exact Charset.decodeFrom_ascii _ 0 isAscii
  unfold decode
  rw [if_neg (by decide), decoded]

theorem decode_not_ascii {content : Bytes} (notAscii : ¬ content.IsAscii) :
    ∃ fault, ascii.decode content =
      .error (.defect (.undecodableString fault) none) := by
  obtain ⟨charset, bytes, place, reason, failed⟩ :
      ∃ charset bytes place reason,
        Charset.decodeNamed ascii.charset ascii.recovery content =
          .error (.undecodable charset bytes place reason) := by
    rw [Charset.decodeNamed_of_known charset_ascii]
    exact Charset.decodeFrom_not_ascii 0 notAscii
  refine ⟨Charset.undecodableMessage charset bytes place reason, ?_⟩
  unfold decode
  rw [if_neg (by decide), failed]
  rfl

end TextRules

end PickleGraph
