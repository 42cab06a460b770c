import LedgerAppendix.Proofs.Appendix.Refusals
import LedgerAppendix.Proofs.Text.Utf8

/-!
# The rules of admission

The rules are stated twice here, and neither time as the code has them. `Admissible` says what an
appendix has to be so that it may go into a block, next to what transaction, under which limits and
at which state of the ledger. `Warrants` says, for each refusal, what must be the case where it is
given.

`validate_admissible` holds the code against both. A set is admitted just if all its appendices are
admissible. Else the refusal is that of one appendix, the first in wire order that there is, and it
tells the truth: versions come before all else, whatever else is wrong with earlier appendices.
-/

namespace LedgerAppendix

/-! ### What is admissible -/

/-- A legacy transaction carries legacy appendices, and any other appendices with a version. -/
def Appendix.SameAge (a : Appendix) (tx : Transaction) : Prop := 0 < a.version ↔ 0 < tx.version

/-- A message is not too long, and UTF-8 if it is text. On a legacy transaction it is binary, and
    the transaction is there for it. -/
structure Message.Admissible (m : Message) (tx : Transaction) (limits : Limits) : Prop where
  length : m.payload.length ≤ limits.maxMessageLength.toNat
  utf8 : m.isText = true → ∃ text, Utf8.encode text = m.payload
  legacy : tx.version = 0 → m.isText = false ∧ tx.type = .arbitraryMessage

/-- A sealed message is not too long and has a nonce of the right length, none if there is no
    ciphertext. No legacy transaction carries one. -/
structure SealedMessage.Admissible (m : SealedMessage) (tx : Transaction) (limits : Limits) :
    Prop where
  length : m.ciphertext.length ≤ limits.maxEncryptedLength.toNat
  nonce : m.nonce.length = if m.ciphertext = [] then 0 else 32
  modern : 0 < tx.version

/-- An announcement has the recipient's key, on a transaction that names a recipient and is no
    legacy one, and the recipient has no other key. -/
structure Announcement.Admissible (a : Announcement) (tx : Transaction) (ledger : Ledger) :
    Prop where
  length : a.key.length = 32
  modern : 0 < tx.version
  hasRecipient : tx.hasRecipient = true
  recipient : tx.recipient = some (accountId a.key)
  unbound : ∀ bound, ledger.publicKey? (accountId a.key) = some bound → bound.bytes = a.key

/-- A phasing does not name too many voters, and names an asset if votes are weighted by one. -/
structure Phasing.Admissible (p : Phasing) (limits : Limits) : Prop where
  voters : p.voters.length ≤ limits.maxVoters.toNat
  asset : ∀ id, p.weighting = .asset id → id ≠ 0

namespace Appendix

def Admissible (a : Appendix) (tx : Transaction) (limits : Limits) (ledger : Ledger) : Prop :=
  match a with
  | .message m => m.Admissible tx limits
  | .encryptedMessage m => m.Admissible tx limits ∧ tx.hasRecipient = true
  | .announcement a => a.Admissible tx ledger
  | .encryptToSelf m => m.Admissible tx limits
  | .phasing p => p.Admissible limits

/-! ### What a refusal says -/

/-- The sealed message that an appendix of either kind is. -/
def sealed? : Appendix → Option SealedMessage
  | .encryptedMessage m | .encryptToSelf m => some m
  | _ => none

/-- An appendix breaks a rule, on a transaction and under some limits. -/
inductive Breaks (tx : Transaction) (limits : Limits) : Appendix → Violation → Prop
  | versionMismatch {a : Appendix} (hversion : ¬a.SameAge tx) :
    Breaks tx limits a (.versionMismatch a.kind a.version tx.version)
  | textOnLegacy {m : Message} (htext : m.isText = true) (hlegacy : tx.version = 0) :
    Breaks tx limits (.message m) .textOnLegacy
  | messageOnLegacy {m : Message} (hlegacy : tx.version = 0) (htype : tx.type ≠ .arbitraryMessage) :
    Breaks tx limits (.message m) .messageOnLegacy
  | messageTooLong {m : Message} (hlong : limits.maxMessageLength.toNat < m.payload.length) :
    Breaks tx limits (.message m) (.messageTooLong m.payload.length)
  | messageNotUtf8 {m : Message} (htext : m.isText = true)
    (hbroken : ∀ text, Utf8.encode text ≠ m.payload) :
    Breaks tx limits (.message m) .messageNotUtf8
  | ciphertextTooLong {a : Appendix} {m : SealedMessage} (ha : a.sealed? = some m)
    (hlong : limits.maxEncryptedLength.toNat < m.ciphertext.length) :
    Breaks tx limits a .ciphertextTooLong
  | nonceLength {a : Appendix} {m : SealedMessage} (ha : a.sealed? = some m)
    (hnonce : m.nonce.length ≠ if m.ciphertext = [] then 0 else 32) :
    Breaks tx limits a (.nonceLength m.nonce.length)
  | encryptedWithoutRecipient {m : SealedMessage} (hrecipient : tx.hasRecipient = false) :
    Breaks tx limits (.encryptedMessage m) .encryptedWithoutRecipient
  | encryptedOnLegacy {m : SealedMessage} (hlegacy : tx.version = 0) :
    Breaks tx limits (.encryptedMessage m) .encryptedOnLegacy
  | encryptToSelfOnLegacy {m : SealedMessage} (hlegacy : tx.version = 0) :
    Breaks tx limits (.encryptToSelf m) .encryptToSelfOnLegacy
  | announcementWithoutRecipient {a : Announcement} (hrecipient : tx.hasRecipient = false) :
    Breaks tx limits (.announcement a) .announcementWithoutRecipient
  | keyLength {a : Announcement} (hlength : a.key.length ≠ 32) :
    Breaks tx limits (.announcement a) (.keyLength a.key)
  | keyOfOtherAccount {a : Announcement} (hother : tx.recipient ≠ some (accountId a.key)) :
    Breaks tx limits (.announcement a) .keyOfOtherAccount
  | announcementOnLegacy {a : Announcement} (hlegacy : tx.version = 0) :
    Breaks tx limits (.announcement a) .announcementOnLegacy
  | tooManyVoters {p : Phasing} (hmany : limits.maxVoters.toNat < p.voters.length) :
    Breaks tx limits (.phasing p) .tooManyVoters
  | assetMissing {p : Phasing} (hasset : p.weighting = .asset 0) :
    Breaks tx limits (.phasing p) .assetMissing

/-- An announcement does not agree with what the ledger says about the recipient. -/
inductive ConflictsWith (tx : Transaction) (keys : KeyLookup) (a : Announcement) : Conflict → Prop
  | ledger {recipient : AccountId} {e : LedgerError} (hrecipient : tx.recipient = some recipient)
    (hkeys : keys recipient = .error e) : ConflictsWith tx keys a (.ledger e)
  | differentKey {recipient : AccountId} {bound : PublicKey}
    (hrecipient : tx.recipient = some recipient) (hkeys : keys recipient = .ok (some bound))
    (hother : bound.bytes ≠ a.key) : ConflictsWith tx keys a .differentKey

/-- What a refusal says is the case. -/
inductive Warrants (tx : Transaction) (limits : Limits) (keys : KeyLookup) :
    Appendix → AppendixError → Prop
  | violation {a : Appendix} {v : Violation} (hbroken : a.Breaks tx limits v) :
    Warrants tx limits keys a (.notValid v)
  | conflict {a : Announcement} {c : Conflict} (hconflict : ConflictsWith tx keys a c) :
    Warrants tx limits keys (.announcement a) (.notCurrentlyValid c)

end Appendix

variable {tx : Transaction} {limits : Limits} {ledger : Ledger} {keys : KeyLookup}

open Appendix (Breaks ConflictsWith Warrants)

theorem Transaction.isLegacy_iff : tx.isLegacy = true ↔ tx.version = 0 := decide_eq_true_iff

theorem Transaction.not_isLegacy_iff : ¬tx.isLegacy = true ↔ 0 < tx.version := by
  rw [isLegacy_iff, UInt8.pos_iff_ne_zero]

/-! ### Messages -/

namespace Message

variable {m : Message}

theorem text?_eq_none_iff (htext : m.isText = true) :
    m.text? = none ↔ ∀ text, Utf8.encode text ≠ m.payload := by
  rw [text?, if_pos htext, Option.eq_none_iff_forall_ne_some]
  refine forall_congr' fun text => not_congr ?_
  constructor
  · exact Utf8.encode_of_decode?
  · rintro hpayload
    rw [← hpayload, Utf8.decode?_encode]

theorem admissible_of_violation? (h : m.violation? tx limits = none) : m.Admissible tx limits := by
  unfold violation? at h
  split_ifs at h with hlegacyText htype hlong hbroken
  refine ⟨Nat.not_lt.1 hlong, fun htext => ?_, fun hlegacy => ?_⟩
  · by_contra hnone
    have hall : m.text? = none := (text?_eq_none_iff htext).2 (not_exists.1 hnone)
    simp [htext, hall] at hbroken
  · have htrue : tx.isLegacy = true := Transaction.isLegacy_iff.2 hlegacy
    simpa [htrue] using And.intro hlegacyText htype

theorem breaks_of_violation? {v : Violation} (h : m.violation? tx limits = some v) :
    Breaks tx limits (.message m) v := by
  unfold violation? at h
  split_ifs at h with hlegacyText htype hlong hbroken
  · cases h
    simp only [Bool.and_eq_true, Transaction.isLegacy_iff] at hlegacyText
    exact .textOnLegacy hlegacyText.1 hlegacyText.2
  · cases h
    simp only [Bool.and_eq_true, Transaction.isLegacy_iff, decide_eq_true_eq] at htype
    exact .messageOnLegacy htype.1 htype.2
  · cases h
    exact .messageTooLong hlong
  · cases h
    simp only [Bool.and_eq_true, Option.isNone_iff_eq_none] at hbroken
    exact .messageNotUtf8 hbroken.1 ((text?_eq_none_iff hbroken.1).1 hbroken.2)

end Message

/-! ### Sealed messages -/

namespace SealedMessage

variable {m : SealedMessage}

theorem hasValidNonce_iff :
    m.hasValidNonce = true ↔ m.nonce.length = if m.ciphertext = [] then 0 else 32 := by
  unfold hasValidNonce nonceLength
  cases m.ciphertext <;> simp

theorem of_bodyViolation?_eq_none (h : m.bodyViolation? limits = none) :
    m.ciphertext.length ≤ limits.maxEncryptedLength.toNat ∧
      m.nonce.length = if m.ciphertext = [] then 0 else 32 := by
  simpa only [List.length_eq_zero_iff] using of_bodyViolation? h

theorem breaks_of_bodyViolation? {a : Appendix} (ha : a.sealed? = some m) {v : Violation}
    (h : m.bodyViolation? limits = some v) : Breaks tx limits a v := by
  unfold bodyViolation? at h
  split_ifs at h with hlong hnonce
  · cases h
    exact .ciphertextTooLong ha hlong
  · cases h
    refine .nonceLength ha fun hlength => ?_
    simp [hasValidNonce_iff.2 hlength] at hnonce

theorem admissible_of_violation? (h : m.violation? tx limits = none) :
    m.Admissible tx limits ∧ tx.hasRecipient = true := by
  obtain ⟨hlength, hnonce⟩ := of_bodyViolation?_eq_none (of_violation? h)
  unfold violation? at h
  rw [of_violation? h] at h
  dsimp only at h
  split_ifs at h with hrecipient hlegacy
  exact ⟨⟨hlength, hnonce, Transaction.not_isLegacy_iff.1 hlegacy⟩, by simpa using hrecipient⟩

theorem breaks_of_violation? {v : Violation} (h : m.violation? tx limits = some v) :
    Breaks tx limits (.encryptedMessage m) v := by
  unfold violation? at h
  split at h
  · next w hbody =>
    cases h
    exact breaks_of_bodyViolation? rfl hbody
  · split_ifs at h with hrecipient hlegacy
    · cases h
      exact .encryptedWithoutRecipient (by simpa using hrecipient)
    · cases h
      exact .encryptedOnLegacy (Transaction.isLegacy_iff.1 hlegacy)

theorem admissible_of_toSelfViolation? (h : m.toSelfViolation? tx limits = none) :
    m.Admissible tx limits := by
  obtain ⟨hlength, hnonce⟩ := of_bodyViolation?_eq_none (of_toSelfViolation? h)
  unfold toSelfViolation? at h
  rw [of_toSelfViolation? h] at h
  dsimp only at h
  split_ifs at h with hlegacy
  exact ⟨hlength, hnonce, Transaction.not_isLegacy_iff.1 hlegacy⟩

theorem breaks_of_toSelfViolation? {v : Violation} (h : m.toSelfViolation? tx limits = some v) :
    Breaks tx limits (.encryptToSelf m) v := by
  unfold toSelfViolation? at h
  split at h
  · next w hbody =>
    cases h
    exact breaks_of_bodyViolation? rfl hbody
  · split_ifs at h with hlegacy
    cases h
    exact .encryptToSelfOnLegacy (Transaction.isLegacy_iff.1 hlegacy)

end SealedMessage

/-! ### Announcements -/

namespace Announcement

variable {a : Announcement}

theorem key?_eq_none_iff : a.key? = none ↔ a.key.length ≠ 32 := by
  unfold key? PublicKey.ofBytes?
  split <;> simp_all

theorem breaks_of_violation? {v : Violation} (h : a.violation? tx = some v) :
    Breaks tx limits (.announcement a) v := by
  unfold violation? at h
  split_ifs at h with hrecipient hkey haccount hlegacy
  · cases h
    exact .announcementWithoutRecipient (by simpa using hrecipient)
  · cases h
    exact .keyLength (key?_eq_none_iff.1 (Option.isNone_iff_eq_none.1 hkey))
  · cases h
    exact .keyOfOtherAccount haccount
  · cases h
    exact .announcementOnLegacy (Transaction.isLegacy_iff.1 hlegacy)

theorem conflictsWith_of_conflict? {c : Conflict} (h : a.conflict? tx keys = some c) :
    ConflictsWith tx keys a c := by
  unfold conflict? at h
  split at h
  · -- there is no recipient
    cases h
  · next recipient hrecipient =>
    -- there is a recipient
    split at h
    · next e hkeys =>
      -- the look-up fails
      cases h
      exact .ledger hrecipient hkeys
    · -- no key is bound
      cases h
    · next bound hkeys =>
      -- a key is bound
      split at h
      · -- it is the announced one
        cases h
      · next hother =>
        -- it is another one
        cases h
        exact .differentKey hrecipient hkeys hother

theorem admissible_of_violation? (h : a.violation? tx = none)
    (hconflict : a.conflict? tx ledger.keys = none) : a.Admissible tx ledger := by
  have hrecipient := recipient_of_violation? h
  obtain ⟨bound?, hkeys, hbound⟩ := of_conflict? hrecipient hconflict
  have hlength := of_violation? h
  unfold violation? at h
  split_ifs at h with hnone hkey haccount hlegacy
  refine ⟨hlength, Transaction.not_isLegacy_iff.1 hlegacy, by simpa using hnone, hrecipient, ?_⟩
  rwa [← Except.ok.inj hkeys] at hbound

end Announcement

/-! ### Phasings -/

namespace Phasing

variable {p : Phasing}

theorem admissible_of_violation? (h : p.violation? limits = none) : p.Admissible limits := by
  unfold violation? at h
  split_ifs at h with hmany hasset
  refine ⟨Nat.not_lt.1 hmany, ?_⟩
  rintro id hid rfl
  exact hasset hid

theorem breaks_of_violation? {v : Violation} (h : p.violation? limits = some v) :
    Breaks tx limits (.phasing p) v := by
  unfold violation? at h
  split_ifs at h with hmany hasset
  · cases h
    exact .tooManyVoters hmany
  · cases h
    exact .assetMissing hasset

end Phasing

/-! ### Any kind -/

namespace Appendix

variable {a : Appendix}

theorem Admissible.of_sealed? (h : a.Admissible tx limits ledger) {m : SealedMessage}
    (ha : a.sealed? = some m) : m.Admissible tx limits := by
  cases a with
  | encryptedMessage m' =>
    cases ha
    exact h.1
  | encryptToSelf m' =>
    cases ha
    exact h
  | message _ => cases ha
  | announcement _ => cases ha
  | phasing _ => cases ha

theorem fitsVersion_iff : a.fitsVersion tx.version = true ↔ a.SameAge tx := Version.fits_iff

theorem breaks_of_violation? {v : Violation} (h : a.violation? tx limits = some v) :
    a.Breaks tx limits v := by
  cases a with
  | message m => exact Message.breaks_of_violation? h
  | encryptedMessage m => exact SealedMessage.breaks_of_violation? h
  | announcement a => exact Announcement.breaks_of_violation? h
  | encryptToSelf m => exact SealedMessage.breaks_of_toSelfViolation? h
  | phasing p => exact Phasing.breaks_of_violation? h

/-- A refusal of an appendix tells the truth. -/
theorem warrants_of_refusal? {e : AppendixError} (h : a.refusal? tx limits keys = some e) :
    a.Warrants tx limits keys e := by
  rcases of_refusal?_eq_some h with ⟨v, hv, rfl⟩ | ⟨b, c, rfl, -, hc, rfl⟩
  · exact .violation (breaks_of_violation? hv)
  · exact .conflict (Announcement.conflictsWith_of_conflict? hc)

theorem admissible_of_refusal? (h : a.refusal? tx limits ledger.keys = none) :
    a.Admissible tx limits ledger := by
  obtain ⟨hrules, hconflict⟩ := refusal?_eq_none_iff.1 h
  cases a with
  | message m => exact Message.admissible_of_violation? hrules
  | encryptedMessage m => exact SealedMessage.admissible_of_violation? hrules
  | announcement a => exact Announcement.admissible_of_violation? hrules hconflict
  | encryptToSelf m => exact SealedMessage.admissible_of_toSelfViolation? hrules
  | phasing p => exact Phasing.admissible_of_violation? hrules

/-- Nothing can truly be said against an admissible appendix. -/
theorem Admissible.not_warrants (h : a.Admissible tx limits ledger) (hage : a.SameAge tx)
    (e : AppendixError) : ¬a.Warrants tx limits ledger.keys e := by
  rintro (⟨hbroken⟩ | ⟨hconflict⟩)
  · cases hbroken with
    | versionMismatch hversion => exact hversion hage
    | textOnLegacy htext hlegacy => exact absurd htext (by simp [(h.legacy hlegacy).1])
    | messageOnLegacy hlegacy htype => exact htype (h.legacy hlegacy).2
    | messageTooLong hlong => exact Nat.not_lt.2 h.length hlong
    | messageNotUtf8 htext hbroken => exact not_exists.2 hbroken (h.utf8 htext)
    | ciphertextTooLong ha hlong =>
      exact Nat.not_lt.2 (h.of_sealed? ha).length hlong
    | nonceLength ha hnonce => exact hnonce (h.of_sealed? ha).nonce
    | encryptedWithoutRecipient hrecipient => exact absurd h.2 (by simp [hrecipient])
    | encryptedOnLegacy hlegacy => exact absurd h.1.modern (by simp [hlegacy])
    | encryptToSelfOnLegacy hlegacy => exact absurd h.modern (by simp [hlegacy])
    | announcementWithoutRecipient hrecipient =>
      exact absurd h.hasRecipient (by simp [hrecipient])
    | keyLength hlength => exact hlength h.length
    | keyOfOtherAccount hother => exact hother h.recipient
    | announcementOnLegacy hlegacy => exact absurd h.modern (by simp [hlegacy])
    | tooManyVoters hmany => exact Nat.not_lt.2 h.voters hmany
    | assetMissing hasset => exact h.asset 0 hasset rfl
  · cases hconflict with
    | ledger hrecipient hkeys => cases hkeys
    | differentKey hrecipient hkeys hother =>
      obtain rfl := Option.some.inj (hrecipient.symm.trans h.recipient)
      exact hother (h.unbound _ (Except.ok.inj hkeys))

/-- An appendix of the transaction's age is refused just if it is not admissible. -/
theorem refusal?_eq_none_iff_admissible (hage : a.SameAge tx) :
    a.refusal? tx limits ledger.keys = none ↔ a.Admissible tx limits ledger := by
  refine ⟨admissible_of_refusal?, fun hadmissible => ?_⟩
  refine Option.eq_none_iff_forall_ne_some.2 fun e he => ?_
  exact hadmissible.not_warrants hage e (warrants_of_refusal? he)

end Appendix

/-! ### Sets -/

/-- An element of a list has a property, and none before it has. -/
def IsFirst {α : Type} (l : List α) (p : α → Prop) (a : α) : Prop :=
  ∃ before after, l = before ++ a :: after ∧ p a ∧ ∀ b ∈ before, ¬p b

theorem IsFirst.congr {α : Type} {l : List α} {p q : α → Prop} {a : α} (h : IsFirst l p a)
    (hpq : ∀ b ∈ l, p b ↔ q b) : IsFirst l q a := by
  obtain ⟨before, after, rfl, ha, hbefore⟩ := h
  refine ⟨before, after, rfl, ?_, fun b hb => ?_⟩
  · exact (hpq a (List.mem_append_right _ List.mem_cons_self)).1 ha
  · exact fun hqb => hbefore b hb ((hpq b (List.mem_append_left _ hb)).2 hqb)

namespace AppendixSet

variable {s : AppendixSet}

theorem versionRefusal?_eq_some_iff {r : Refusal} :
    s.versionRefusal? tx = some r ↔
      ∃ a, IsFirst s.toList (fun a => ¬a.SameAge tx) a ∧
        r = .version a.kind a.version tx.version := by
  simp only [versionRefusal?, Option.map_eq_some_iff, List.find?_eq_some_iff_append, IsFirst,
    ← Appendix.fitsVersion_iff]
  constructor
  · rintro ⟨a, ⟨ha, before, after, hlist, hbefore⟩, rfl⟩
    exact ⟨a, ⟨before, after, hlist, by simpa using ha, by simpa using hbefore⟩, rfl⟩
  · rintro ⟨a, ⟨before, after, hlist, ha, hbefore⟩, rfl⟩
    exact ⟨a, ⟨by simpa using ha, before, after, hlist, by simpa using hbefore⟩, rfl⟩

theorem versionRefusal?_eq_none_iff_sameAge :
    s.versionRefusal? tx = none ↔ ∀ a ∈ s.toList, a.SameAge tx := by
  simp only [versionRefusal?_eq_none_iff, Appendix.fitsVersion_iff]

theorem appendixRefusal?_eq_some_iff {r : Refusal} :
    s.appendixRefusal? tx limits keys = some r ↔
      ∃ a e, IsFirst s.toList (fun a => ¬a.refusal? tx limits keys = none) a ∧
        a.refusal? tx limits keys = some e ∧ r = .appendix a.kind e := by
  simp only [appendixRefusal?, List.findSome?_eq_some_iff, IsFirst, Option.map_eq_some_iff,
    Option.map_eq_none_iff, not_not]
  constructor
  · rintro ⟨before, a, after, hlist, ⟨e, he, rfl⟩, hbefore⟩
    exact ⟨a, e, ⟨before, after, hlist, by simp [he], hbefore⟩, he, rfl⟩
  · rintro ⟨a, e, ⟨before, after, hlist, -, hbefore⟩, he, rfl⟩
    exact ⟨before, a, after, hlist, ⟨e, he, rfl⟩, hbefore⟩

/-- Versions come first. Only then the first appendix in wire order that is refused by itself gives
    the reason. -/
theorem validate_eq_error_iff {e : AppendixError} :
    s.validate tx limits keys = .error e ↔
      (∃ a, IsFirst s.toList (fun a => ¬a.SameAge tx) a ∧
        e = .notValid (.versionMismatch a.kind a.version tx.version)) ∨
      (∀ a ∈ s.toList, a.SameAge tx) ∧
        ∃ a, IsFirst s.toList (fun a => ¬a.refusal? tx limits keys = none) a ∧
          a.refusal? tx limits keys = some e := by
  rw [validate_error_iff]
  constructor
  · rintro ⟨r, hr, rfl⟩
    rcases refusal?_eq_some_iff.1 hr with hversion | ⟨hversions, hrefused⟩
    · -- the version of an appendix
      obtain ⟨a, hfirst, rfl⟩ := versionRefusal?_eq_some_iff.1 hversion
      exact .inl ⟨a, hfirst, rfl⟩
    · -- an appendix by itself
      obtain ⟨a, e, hfirst, he, rfl⟩ := appendixRefusal?_eq_some_iff.1 hrefused
      exact .inr ⟨versionRefusal?_eq_none_iff_sameAge.1 hversions, a, hfirst, he⟩
  · rintro (⟨a, hfirst, rfl⟩ | ⟨hages, a, hfirst, he⟩)
    · have hversion := versionRefusal?_eq_some_iff.2 ⟨a, hfirst, rfl⟩
      exact ⟨_, refusal?_eq_some_iff.2 (.inl hversion), rfl⟩
    · have hrefused := appendixRefusal?_eq_some_iff.2 ⟨a, e, hfirst, he, rfl⟩
      have hversions := versionRefusal?_eq_none_iff_sameAge.2 hages
      exact ⟨_, refusal?_eq_some_iff.2 (.inr ⟨hversions, hrefused⟩), rfl⟩

/-- The appendix that a set is refused for, and why: the first one in wire order of another age than
    the transaction, or if there is none, the first one that is refused by itself. -/
def RefusedFor (s : AppendixSet) (tx : Transaction) (limits : Limits) (keys : KeyLookup)
    (a : Appendix) (e : AppendixError) : Prop :=
  (IsFirst s.toList (fun a => ¬a.SameAge tx) a ∧
    e = .notValid (.versionMismatch a.kind a.version tx.version)) ∨
  (∀ b ∈ s.toList, b.SameAge tx) ∧
    IsFirst s.toList (fun a => ¬a.refusal? tx limits keys = none) a ∧
      a.refusal? tx limits keys = some e

theorem refusedFor_of_refusal? {r : Refusal} (h : s.refusal? tx limits keys = some r) :
    ∃ a, s.RefusedFor tx limits keys a r.error ∧ a.kind = r.kind := by
  rcases refusal?_eq_some_iff.1 h with hversion | ⟨hversions, hrefused⟩
  · obtain ⟨a, hfirst, rfl⟩ := versionRefusal?_eq_some_iff.1 hversion
    exact ⟨a, .inl ⟨hfirst, rfl⟩, rfl⟩
  · obtain ⟨a, e, hfirst, he, rfl⟩ := appendixRefusal?_eq_some_iff.1 hrefused
    exact ⟨a, .inr ⟨versionRefusal?_eq_none_iff_sameAge.1 hversions, hfirst, he⟩, rfl⟩

/-- The appendix is one of the set, and what is said against it is the case. -/
theorem RefusedFor.warranted {a : Appendix} {e : AppendixError}
    (h : s.RefusedFor tx limits keys a e) : a ∈ s.toList ∧ a.Warrants tx limits keys e := by
  rcases h with ⟨⟨_, _, hlist, hage, -⟩, rfl⟩ | ⟨-, ⟨_, _, hlist, -, -⟩, he⟩
  · exact ⟨hlist ▸ List.mem_append_right _ List.mem_cons_self,
      .violation (.versionMismatch hage)⟩
  · exact ⟨hlist ▸ List.mem_append_right _ List.mem_cons_self, Appendix.warrants_of_refusal? he⟩

/-- What a refused set is refused for is the case with one of its appendices. -/
theorem warrants_of_validate {e : AppendixError} (h : s.validate tx limits keys = .error e) :
    ∃ a ∈ s.toList, a.Warrants tx limits keys e := by
  obtain ⟨r, hr, rfl⟩ := validate_error_iff.1 h
  obtain ⟨a, hrefused, -⟩ := refusedFor_of_refusal? hr
  exact ⟨a, hrefused.warranted⟩

/-- A set is admitted just if all its appendices are of the transaction's age and admissible. Else
    it is refused for the first one, in wire order, of another age, or if there is none, for the
    first one that is not admissible; and what the refusal says of that one is the case. -/
theorem validate_admissible (s : AppendixSet) (tx : Transaction) (limits : Limits)
    (ledger : Ledger) :
    (s.validate tx limits ledger.keys = .ok () ↔
      (∀ a ∈ s.toList, a.SameAge tx) ∧ ∀ a ∈ s.toList, a.Admissible tx limits ledger) ∧
    ∀ e, s.validate tx limits ledger.keys = .error e ↔
      (∃ a, IsFirst s.toList (fun a => ¬a.SameAge tx) a ∧
        e = .notValid (.versionMismatch a.kind a.version tx.version)) ∨
      (∀ a ∈ s.toList, a.SameAge tx) ∧
        ∃ a, IsFirst s.toList (fun a => ¬a.Admissible tx limits ledger) a ∧
          a.refusal? tx limits ledger.keys = some e ∧ a.Warrants tx limits ledger.keys e := by
  constructor
  · -- admitted: each appendix for itself
    rw [validate_eq_ok_iff, refusal?_eq_none_iff]
    simp only [Appendix.fitsVersion_iff, ← Appendix.refusal?_eq_none_iff]
    refine and_congr_right fun hages => forall₂_congr fun a ha => ?_
    exact Appendix.refusal?_eq_none_iff_admissible (hages a ha)
  · -- refused: the same appendix is the first one
    intro e
    rw [validate_eq_error_iff]
    refine or_congr_right (and_congr_right fun hages => exists_congr fun a => ?_)
    have hsame : ∀ b ∈ s.toList, ¬b.refusal? tx limits ledger.keys = none ↔
        ¬b.Admissible tx limits ledger := fun b hb =>
      not_congr (Appendix.refusal?_eq_none_iff_admissible (hages b hb))
    constructor
    · rintro ⟨hfirst, he⟩
      exact ⟨hfirst.congr hsame, he, Appendix.warrants_of_refusal? he⟩
    · rintro ⟨hfirst, he, -⟩
      exact ⟨hfirst.congr fun b hb => (hsame b hb).symm, he⟩

/-- A message that is too long, in front of a poll without a version. -/
def longMessageAndPoll : AppendixSet :=
  { empty with
    message := some ⟨1, List.replicate 1001 0, false⟩
    phasing := some ⟨0, 200, 1, 1, .account, []⟩ }

/-- The version of the poll comes first. -/
example : longMessageAndPoll.validate paymentToKey .standard Ledger.empty.keys =
    .error (.notValid (.versionMismatch .phasing 0 1)) := rfl

end AppendixSet

end LedgerAppendix
