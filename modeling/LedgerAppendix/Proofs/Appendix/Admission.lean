import LedgerAppendix.Appendix.Admission
import LedgerAppendix.Proofs.Wire.Region
import Mathlib.Tactic.SplitIfs

/-!
# What admission promises a reader

Admission and reading go by the same limits, so an appendix that is admitted keeps to every rule
that a reader of its bytes has, but for one: the limits may allow a length that its field on the
wire has no room for. Up to that, `wireValid_iff` says, what is admitted can be read back.
-/

namespace LedgerAppendix

variable {tx : Transaction} {limits : Limits}

/-! ### Each form -/

theorem Message.of_violation? {m : Message} (h : m.violation? tx limits = none) :
    m.payload.length ≤ limits.maxMessageLength.toNat ∧ (m.isText → m.text?.isSome) := by
  unfold violation? at h
  split_ifs at h with hlegacy htype hlong htext
  refine ⟨Nat.not_lt.1 hlong, fun hm => ?_⟩
  simpa [hm, Option.isSome_iff_ne_none] using htext

theorem SealedMessage.of_bodyViolation? {m : SealedMessage}
    (h : m.bodyViolation? limits = none) :
    m.ciphertext.length ≤ limits.maxEncryptedLength.toNat ∧
      m.nonce.length = if m.ciphertext.length = 0 then 0 else 32 := by
  unfold bodyViolation? at h
  split_ifs at h with hlong hnonce
  refine ⟨Nat.not_lt.1 hlong, ?_⟩
  unfold hasValidNonce nonceLength at hnonce
  cases hm : m.ciphertext <;> simpa [hm] using hnonce

theorem SealedMessage.of_violation? {m : SealedMessage} (h : m.violation? tx limits = none) :
    m.bodyViolation? limits = none := by
  unfold violation? at h
  split at h
  · cases h
  · next hbody => exact hbody

theorem SealedMessage.of_toSelfViolation? {m : SealedMessage}
    (h : m.toSelfViolation? tx limits = none) : m.bodyViolation? limits = none := by
  unfold toSelfViolation? at h
  split at h
  · cases h
  · next hbody => exact hbody

theorem Announcement.of_violation? {a : Announcement} (h : a.violation? tx = none) :
    a.key.length = 32 := by
  unfold violation? at h
  split_ifs at h with hrecipient hkey haccount hlegacy
  unfold key? PublicKey.ofBytes? at hkey
  by_contra hlength
  simp [hlength] at hkey

/-- An announcement goes to the account of its key. -/
theorem Announcement.recipient_of_violation? {a : Announcement} (h : a.violation? tx = none) :
    tx.recipient = some (accountId a.key) := by
  unfold violation? at h
  split_ifs at h with hrecipient hkey haccount hlegacy
  exact not_ne_iff.1 haccount

/-- Without a conflict the ledger has answered, and has no other key for the recipient. -/
theorem Announcement.of_conflict? {a : Announcement} {keys : KeyLookup} {recipient : AccountId}
    (hrecipient : tx.recipient = some recipient) (h : a.conflict? tx keys = none) :
    ∃ bound?, keys recipient = .ok bound? ∧ ∀ k, bound? = some k → k.bytes = a.key := by
  unfold conflict? at h
  rw [hrecipient] at h
  dsimp only at h
  split at h
  · cases h
  · next hkeys => exact ⟨none, hkeys, nofun⟩
  · next bound hkeys =>
    split at h
    · next hbytes => exact ⟨some bound, hkeys, fun k hk => Option.some.inj hk ▸ hbytes⟩
    · cases h

theorem Phasing.of_violation? {p : Phasing} (h : p.violation? limits = none) :
    p.voters.length ≤ limits.maxVoters.toNat := by
  unfold violation? at h
  split_ifs at h with hmany hasset
  exact Nat.not_lt.1 hmany

theorem Version.fits_iff {version transactionVersion : UInt8} :
    Version.fits version transactionVersion = true ↔ (0 < version ↔ 0 < transactionVersion) := by
  unfold fits
  split
  · next hlegacy => simp [hlegacy]
  · next hmodern => simp [UInt8.pos_iff_ne_zero, hmodern]

/-! ### Any kind -/

namespace Appendix

/-- The lengths that stand in front of the appendix's parts have room in their fields on the wire:
    31 bits for the bytes of a message, one byte for the voters of a poll. -/
def LengthsFit : Appendix → Prop
  | .message m => m.payload.length < 2 ^ 31
  | .encryptedMessage m => m.ciphertext.length < 2 ^ 31
  | .announcement _ => True
  | .encryptToSelf m => m.ciphertext.length < 2 ^ 31
  | .phasing p => p.voters.length < 2 ^ 8

instance (a : Appendix) : Decidable a.LengthsFit :=
  match a with
  | .message _ => inferInstanceAs (Decidable (_ < _))
  | .encryptedMessage _ => inferInstanceAs (Decidable (_ < _))
  | .announcement _ => inferInstanceAs (Decidable True)
  | .encryptToSelf _ => inferInstanceAs (Decidable (_ < _))
  | .phasing _ => inferInstanceAs (Decidable (_ < _))

/-- An appendix that is admitted comes back from the wire just if its lengths fit their fields. -/
theorem wireValid_iff {a : Appendix} (hversion : a.fitsVersion tx.version = true)
    (hadmitted : a.violation? tx limits = none) :
    a.WireValid tx.version limits ↔ a.LengthsFit := by
  have hfits : 0 < a.version ↔ 0 < tx.version := Version.fits_iff.1 hversion
  cases a with
  | message m =>
    obtain ⟨hlimit, -⟩ := Message.of_violation? hadmitted
    exact ⟨fun h => h.2.1, fun h => ⟨hfits, h, hlimit⟩⟩
  | encryptedMessage m =>
    obtain ⟨hlimit, hnonce⟩ :=
      SealedMessage.of_bodyViolation? (SealedMessage.of_violation? hadmitted)
    exact ⟨fun h => h.2.1.1, fun h => ⟨hfits, ⟨h, hlimit⟩, hnonce⟩⟩
  | announcement a =>
    exact ⟨fun _ => trivial, fun _ => ⟨hfits, Announcement.of_violation? hadmitted⟩⟩
  | encryptToSelf m =>
    obtain ⟨hlimit, hnonce⟩ :=
      SealedMessage.of_bodyViolation? (SealedMessage.of_toSelfViolation? hadmitted)
    exact ⟨fun h => h.2.1.1, fun h => ⟨hfits, ⟨h, hlimit⟩, hnonce⟩⟩
  | phasing p =>
    have hlimit := Phasing.of_violation? hadmitted
    constructor
    · intro h
      have hcount : p.voters.length ≤ 255 := Nat.le_trans h.2 (Nat.min_le_right _ _)
      exact Nat.lt_succ_of_le hcount
    · intro h
      exact ⟨hfits, Nat.le_min.2 ⟨hlimit, Nat.le_of_lt_succ h⟩⟩

theorem refusal?_eq_none_iff {a : Appendix} {keys : KeyLookup} :
    a.refusal? tx limits keys = none ↔
      a.violation? tx limits = none ∧ a.conflict? tx keys = none := by
  unfold refusal?
  split <;> next h => simp [h]

end Appendix

/-- The limits allow no length that a field on the wire has no room for. -/
def Limits.FitWire (limits : Limits) : Prop :=
  limits.maxMessageLength.toNat < 2 ^ 31 ∧ limits.maxEncryptedLength.toNat < 2 ^ 31 ∧
    limits.maxVoters.toNat < 2 ^ 8

theorem Appendix.lengthsFit_of_limits {a : Appendix} (hlimits : limits.FitWire)
    (hadmitted : a.violation? tx limits = none) : a.LengthsFit := by
  obtain ⟨hmessage, hencrypted, hvoters⟩ := hlimits
  cases a with
  | message m => exact Nat.lt_of_le_of_lt (Message.of_violation? hadmitted).1 hmessage
  | encryptedMessage m =>
    have hbody := SealedMessage.of_bodyViolation? (SealedMessage.of_violation? hadmitted)
    exact Nat.lt_of_le_of_lt hbody.1 hencrypted
  | announcement a => trivial
  | encryptToSelf m =>
    have hbody := SealedMessage.of_bodyViolation? (SealedMessage.of_toSelfViolation? hadmitted)
    exact Nat.lt_of_le_of_lt hbody.1 hencrypted
  | phasing p => exact Nat.lt_of_le_of_lt (Phasing.of_violation? hadmitted) hvoters

/-! ### Sets -/

namespace AppendixSet

def LengthsFit (s : AppendixSet) : Prop := ∀ a ∈ s.toList, a.LengthsFit

instance (s : AppendixSet) : Decidable s.LengthsFit :=
  inferInstanceAs (Decidable (∀ a ∈ s.toList, a.LengthsFit))

theorem versionRefusal?_eq_none_iff {s : AppendixSet} :
    s.versionRefusal? tx = none ↔ ∀ a ∈ s.toList, a.fitsVersion tx.version = true := by
  simp [versionRefusal?]

theorem appendixRefusal?_eq_none_iff {s : AppendixSet} {keys : KeyLookup} :
    s.appendixRefusal? tx limits keys = none ↔
      ∀ a ∈ s.toList, a.violation? tx limits = none ∧ a.conflict? tx keys = none := by
  simp only [appendixRefusal?, List.findSome?_eq_none_iff, Option.map_eq_none_iff,
    Appendix.refusal?_eq_none_iff]

/-- A set is admitted just if none of its appendices gives a reason not to. -/
theorem refusal?_eq_none_iff {s : AppendixSet} {keys : KeyLookup} :
    s.refusal? tx limits keys = none ↔
      (∀ a ∈ s.toList, a.fitsVersion tx.version = true) ∧
        ∀ a ∈ s.toList, a.violation? tx limits = none ∧ a.conflict? tx keys = none := by
  rw [← versionRefusal?_eq_none_iff, ← appendixRefusal?_eq_none_iff]
  unfold refusal?
  split <;> next h => simp [h]

theorem refusal?_eq_some_iff {s : AppendixSet} {keys : KeyLookup} {r : Refusal} :
    s.refusal? tx limits keys = some r ↔
      s.versionRefusal? tx = some r ∨
      s.versionRefusal? tx = none ∧ s.appendixRefusal? tx limits keys = some r := by
  unfold refusal?
  split <;> next h => simp [h]

theorem of_refusal? {s : AppendixSet} {keys : KeyLookup} (h : s.refusal? tx limits keys = none) :
    ∀ a ∈ s.toList, a.fitsVersion tx.version = true ∧ a.violation? tx limits = none := by
  intro a ha
  obtain ⟨hversions, hrules⟩ := refusal?_eq_none_iff.1 h
  exact ⟨hversions a ha, (hrules a ha).1⟩

theorem wireValid_iff_of_refusal? {s : AppendixSet} {keys : KeyLookup}
    (h : s.refusal? tx limits keys = none) : s.WireValid tx.version limits ↔ s.LengthsFit :=
  forall₂_congr fun a ha =>
    Appendix.wireValid_iff (of_refusal? h a ha).1 (of_refusal? h a ha).2

end AppendixSet

end LedgerAppendix
