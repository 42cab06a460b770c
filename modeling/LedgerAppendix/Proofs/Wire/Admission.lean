import LedgerAppendix.Proofs.Appendix.Rules

/-!
# What may be wrong with a set that was read

Reading and admission check lengths, counts and versions apart from each other, on different
numbers: a reader has a length word of 31 bits, a count of one byte and a nonce whose length follows
from the ciphertext's, and admission has the lists as they are. They agree all the same. What a
reader accepts under some limits breaks none of these rules under the same limits, so if it is
refused, it is for what no reader looks at.
-/

namespace LedgerAppendix

/-- Whether a violation is one of a version, a length or a count. -/
def Violation.isStructural : Violation → Bool
  | .versionMismatch .. | .messageTooLong _ | .ciphertextTooLong | .nonceLength _ | .keyLength _
  | .tooManyVoters => true
  | .textOnLegacy | .messageOnLegacy | .messageNotUtf8 | .encryptedWithoutRecipient
  | .encryptedOnLegacy | .encryptToSelfOnLegacy | .announcementWithoutRecipient
  | .keyOfOtherAccount | .announcementOnLegacy | .assetMissing => false

variable {tx : Transaction} {limits : Limits}

namespace Appendix

variable {a : Appendix}

theorem WireValid.sameAge (h : a.WireValid tx.version limits) : a.SameAge tx := by
  cases a <;> exact h.1

theorem WireValid.of_sealed? (h : a.WireValid tx.version limits) {m : SealedMessage}
    (ha : a.sealed? = some m) : m.WireValid tx.version limits := by
  cases a with
  | encryptedMessage m' =>
    cases ha
    exact h
  | encryptToSelf m' =>
    cases ha
    exact h
  | message _ => cases ha
  | announcement _ => cases ha
  | phasing _ => cases ha

/-- An appendix that comes back from the wire breaks no rule on versions, lengths and counts. -/
theorem WireValid.isStructural (h : a.WireValid tx.version limits) {v : Violation}
    (hbroken : a.Breaks tx limits v) : v.isStructural = false := by
  cases hbroken with
  | versionMismatch hversion => exact absurd h.sameAge hversion
  | messageTooLong hlong => exact absurd h.2.2 (Nat.not_le.2 hlong)
  | ciphertextTooLong ha hlong => exact absurd (h.of_sealed? ha).2.1.2 (Nat.not_le.2 hlong)
  | nonceLength ha hnonce =>
    -- A reader does not read a length for the nonce, it follows from the ciphertext.
    have hlength := (h.of_sealed? ha).2.2
    simp only [List.length_eq_zero_iff] at hlength
    exact absurd hlength hnonce
  | keyLength hlength => exact absurd h.2 hlength
  | tooManyVoters hmany =>
    exact absurd (Nat.le_trans h.2 (Nat.min_le_left _ _)) (Nat.not_le.2 hmany)
  | textOnLegacy => rfl
  | messageOnLegacy => rfl
  | messageNotUtf8 => rfl
  | encryptedWithoutRecipient => rfl
  | encryptedOnLegacy => rfl
  | encryptToSelfOnLegacy => rfl
  | announcementWithoutRecipient => rfl
  | keyOfOtherAccount => rfl
  | announcementOnLegacy => rfl
  | assetMissing => rfl

end Appendix

namespace AppendixSet

variable {s : AppendixSet}

/-- No appendix of a set that was read, off a transaction of the same version and under the same
    limits, breaks a rule on versions, lengths and counts. So whatever the ledger answers, the set
    is refused only for another rule that one of its appendices breaks, or for the conflict of its
    announcement with the ledger. -/
theorem refusals_of_decode {flags : UInt32} {data : List UInt8}
    (hread : decode flags data tx.version limits = .ok s) :
    (∀ a ∈ s.toList, ∀ v, a.Breaks tx limits v → v.isStructural = false) ∧
    ∀ keys e, s.validate tx limits keys = .error e →
      (∃ a ∈ s.toList, ∃ v, a.Breaks tx limits v ∧ v.isStructural = false ∧ e = .notValid v) ∨
      ∃ a c, s.announcement = some a ∧ Appendix.ConflictsWith tx keys a c ∧
        e = .notCurrentlyValid c := by
  obtain ⟨⟨-, hvalid⟩, -⟩ := decode_eq_ok_iff.1 hread
  refine ⟨fun a ha v => (hvalid a ha).isStructural, fun keys e hrefused => ?_⟩
  obtain ⟨a, ha, hwarranted⟩ := warrants_of_validate hrefused
  cases hwarranted with
  | violation hbroken => exact .inl ⟨a, ha, _, hbroken, (hvalid a ha).isStructural hbroken, rfl⟩
  | conflict hconflict => exact .inr ⟨_, _, mem_toList_announcement.1 ha, hconflict, rfl⟩

/-- A text of one byte that starts no character. -/
def brokenByte : AppendixSet := { empty with message := some ⟨1, [255], true⟩ }

/-- It is read and then refused, for what the reader did not look at. -/
theorem refusals_of_decode_brokenByte :
    decode 1 [1, 1, 0, 0, 128, 255] paymentToKey.version .standard = .ok brokenByte ∧
      brokenByte.validate paymentToKey .standard rivalLedger.keys =
        .error (.notValid .messageNotUtf8) ∧
      ∃ a ∈ brokenByte.toList, a.Breaks paymentToKey .standard .messageNotUtf8 := by
  have hread : decode 1 [1, 1, 0, 0, 128, 255] paymentToKey.version .standard =
      .ok brokenByte := rfl
  have hrefused : brokenByte.validate paymentToKey .standard rivalLedger.keys =
      .error (.notValid .messageNotUtf8) := rfl
  refine ⟨hread, hrefused, ?_⟩
  obtain ⟨-, hcauses⟩ := refusals_of_decode hread
  rcases hcauses _ _ hrefused with ⟨a, ha, v, hbroken, -, hv⟩ | ⟨_, _, _, _, hc⟩
  · cases hv
    exact ⟨a, ha, hbroken⟩
  · cases hc

end AppendixSet

end LedgerAppendix
