import LedgerAppendix.Appendix.Basic
import LedgerAppendix.Appendix.Error
import LedgerAppendix.Ledger
import LedgerAppendix.Transaction

/-!
# Admission to a block

Whether the appendices of a transaction may go into a block. Two questions are kept apart. A
violation follows from the transaction, the appendix and the limits alone, so it holds for good. A
conflict is looked for only where there is no violation, and only an announcement can have one: it
depends on the key that the ledger has for the recipient, which may change.

Of a set, every version is looked at before anything else. Then the first appendix in wire order
that is refused gives the reason.
-/

namespace LedgerAppendix

/-- Answers to the question which key is bound to an account. -/
abbrev KeyLookup := AccountId → Except LedgerError (Option PublicKey)

/-! ### Violations -/

/-- The rules for a plain message (`validate` of `Message`): on a legacy transaction it is binary,
and the transaction is there for it. -/
def Message.violation? (m : Message) (tx : Transaction) (limits : Limits) : Option Violation :=
  if m.isText && tx.isLegacy then some .textOnLegacy
  else if tx.isLegacy && tx.type ≠ .arbitraryMessage then some .messageOnLegacy
  else if limits.maxMessageLength.toNat < m.payload.length then
    some (.messageTooLong m.payload.length)
  else if m.isText && m.text?.isNone then some .messageNotUtf8
  else none

/-- The rules for both kinds of sealed message (`validate` of `EncryptedBody`). -/
def SealedMessage.bodyViolation? (m : SealedMessage) (limits : Limits) : Option Violation :=
  if limits.maxEncryptedLength.toNat < m.ciphertext.length then some .ciphertextTooLong
  else if !m.hasValidNonce then some (.nonceLength m.nonce.length)
  else none

/-- The rules for a message to the recipient (`validate` of `EncryptedMessage`), which needs a
transaction that has one. -/
def SealedMessage.violation? (m : SealedMessage) (tx : Transaction) (limits : Limits) :
    Option Violation :=
  match m.bodyViolation? limits with
  | some v => some v
  | none =>
    if !tx.hasRecipient then some .encryptedWithoutRecipient
    else if tx.isLegacy then some .encryptedOnLegacy
    else none

/-- The rules for a message to the sender (`validate` of `EncryptToSelfMessage`), which needs none.
-/
def SealedMessage.toSelfViolation? (m : SealedMessage) (tx : Transaction) (limits : Limits) :
    Option Violation :=
  match m.bodyViolation? limits with
  | some v => some v
  | none => if tx.isLegacy then some .encryptToSelfOnLegacy else none

/-- The rules for an announcement (`validate` of `PublicKeyAnnouncement`, up to its question to the
ledger): the announced key is the one that the recipient's identifier follows from. -/
def Announcement.violation? (a : Announcement) (tx : Transaction) : Option Violation :=
  if !tx.hasRecipient then some .announcementWithoutRecipient
  else if a.key?.isNone then some (.keyLength a.key)
  else if tx.recipient ≠ some (accountId a.key) then some .keyOfOtherAccount
  else if tx.isLegacy then some .announcementOnLegacy
  else none

/-- The rules for a phasing (`validate` of `TwoPhased`): a poll weighted by an asset names one. -/
def Phasing.violation? (p : Phasing) (limits : Limits) : Option Violation :=
  if limits.maxVoters.toNat < p.voters.length then some .tooManyVoters
  else if p.weighting = .asset 0 then some .assetMissing
  else none

namespace Appendix

def violation? (a : Appendix) (tx : Transaction) (limits : Limits) : Option Violation :=
  match a with
  | .message m => m.violation? tx limits
  | .encryptedMessage m => m.violation? tx limits
  | .announcement a => a.violation? tx
  | .encryptToSelf m => m.toSelfViolation? tx limits
  | .phasing p => p.violation? limits

end Appendix

/-! ### Conflicts -/

/-- An account keeps the key that it has (the question to the ledger in `validate` of
`PublicKeyAnnouncement`). -/
def Announcement.conflict? (a : Announcement) (tx : Transaction) (keys : KeyLookup) :
    Option Conflict :=
  match tx.recipient with
  | none => none
  | some recipient =>
    match keys recipient with
    | .error e => some (.ledger e)
    | .ok none => none
    | .ok (some bound) => if bound.bytes = a.key then none else some .differentKey

namespace Appendix

def conflict? (a : Appendix) (tx : Transaction) (keys : KeyLookup) : Option Conflict :=
  match a with
  | .announcement a => a.conflict? tx keys
  | _ => none

/-- Why an appendix is refused by itself, its version apart. -/
def refusal? (a : Appendix) (tx : Transaction) (limits : Limits) (keys : KeyLookup) :
    Option AppendixError :=
  match a.violation? tx limits with
  | some v => some (.notValid v)
  | none => (a.conflict? tx keys).map .notCurrentlyValid

end Appendix

/-! ### Sets -/

/-- Why a set of appendices is refused. -/
inductive Refusal where
  /-- An appendix has a version that does not go with its transaction's. -/
  | version (kind : Kind) (version transactionVersion : UInt8)
  | appendix (kind : Kind) (error : AppendixError)
deriving Repr

namespace Refusal

def kind : Refusal → Kind
  | .version kind .. => kind
  | .appendix kind _ => kind

/-- The refusal as a caller sees it. -/
def error : Refusal → AppendixError
  | .version kind own transactions => .notValid (.versionMismatch kind own transactions)
  | .appendix _ e => e

end Refusal

namespace AppendixSet

/-- The first appendix whose version does not go with the transaction's. -/
def versionRefusal? (s : AppendixSet) (tx : Transaction) : Option Refusal :=
  (s.toList.find? fun a => !a.fitsVersion tx.version).map fun a =>
    .version a.kind a.version tx.version

/-- The first appendix that is refused by itself. -/
def appendixRefusal? (s : AppendixSet) (tx : Transaction) (limits : Limits) (keys : KeyLookup) :
    Option Refusal :=
  s.toList.findSome? fun a => (a.refusal? tx limits keys).map (.appendix a.kind)

/-- Why the appendices of a transaction are refused. -/
def refusal? (s : AppendixSet) (tx : Transaction) (limits : Limits) (keys : KeyLookup) :
    Option Refusal :=
  match s.versionRefusal? tx with
  | some r => some r
  | none => s.appendixRefusal? tx limits keys

/-- Admit the appendices of a transaction, or refuse them (`validate` of `AppendixSet`). -/
def validate (s : AppendixSet) (tx : Transaction) (limits : Limits) (keys : KeyLookup) :
    Except AppendixError Unit :=
  match s.refusal? tx limits keys with
  | some r => .error r.error
  | none => .ok ()

end AppendixSet

end LedgerAppendix
