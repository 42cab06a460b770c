import LedgerAppendix.Config
import LedgerAppendix.Text
import LedgerAppendix.Transaction

/-!
# Appendices of transactions

A transaction may carry data that its header has no room for. This data comes in appendices, each of
one kind and with a version of its own.
-/

namespace LedgerAppendix

/-!
## Kinds of appendix

A transaction carries at most one appendix of each of five kinds. A word of flags says which ones
are there, and on the wire they follow each other in the order of `Kind.all`. In an attachment
object the presence of one field, the kind's marker, says the same.
-/

/-- The kinds of appendix, in wire order (`AppendixKind`). -/
inductive Kind where
  | message
  | encryptedMessage
  | announcement
  | encryptToSelf
  | phasing
deriving DecidableEq, Repr

namespace Kind

/-- Every kind, in wire order. -/
def all : List Kind := [.message, .encryptedMessage, .announcement, .encryptToSelf, .phasing]

/-- Place in wire order, counted from zero. -/
def rank : Kind → Nat
  | .message => 0
  | .encryptedMessage => 1
  | .announcement => 2
  | .encryptToSelf => 3
  | .phasing => 4

/-- The bit that stands for a kind in a word of flags (`flag`). -/
def flag : Kind → UInt32
  | .message => 0x01
  | .encryptedMessage => 0x02
  | .announcement => 0x04
  | .encryptToSelf => 0x08
  | .phasing => 0x10

/-- The name of a kind (`name`). It is also part of the name of the field that holds the version. -/
def name : Kind → String
  | .message => "Message"
  | .encryptedMessage => "EncryptedMessage"
  | .announcement => "PublicKeyAnnouncement"
  | .encryptToSelf => "EncryptToSelfMessage"
  | .phasing => "TwoPhased"

/-- The field of an attachment object that marks a kind as present (`json_key`). -/
def marker : Kind → String
  | .message => "message"
  | .encryptedMessage => "encryptedMessage"
  | .announcement => "recipientPublicKey"
  | .encryptToSelf => "encryptToSelfMessage"
  | .phasing => "maxHeight"

/-- Whether a word of flags names a kind. -/
def isNamedBy (k : Kind) (flags : UInt32) : Bool := flags &&& k.flag != 0

/-- The kinds that a word of flags names, in wire order. -/
def namedBy (flags : UInt32) : List Kind := all.filter fun k => k.isNamedBy flags

/-- The word of flags that names some kinds. -/
def flagsOf (kinds : List Kind) : UInt32 := kinds.foldl (fun flags k => flags ||| k.flag) 0

/-- The bits of a word of flags that stand for no kind. -/
def unknownFlags (flags : UInt32) : UInt32 := flags &&& ~~~flagsOf all

end Kind

/-!
## Versions of appendices

Version 0 stands for an appendix without an explicit version. Legacy transactions, which have
version 0 themselves, carry only such appendices, and all others carry only appendices with a
version.

A version above 0 takes one byte in front of the appendix on the wire, and a field of its own in an
attachment object; version 0 takes none in either.
-/

namespace Version

/-- The version of an appendix that is made without stating one. -/
def standard : UInt8 := 1

/-- Whether an appendix of a version belongs on a transaction of a version (`verify_version`). -/
def fits (version transactionVersion : UInt8) : Bool :=
  if transactionVersion = 0 then version = 0 else 0 < version

/-- Number of bytes that a version takes (`version_size`). -/
def size (version : UInt8) : Nat := if 0 < version then 1 else 0

/-- The field that holds the version of the appendix with a name (`version_key`). -/
def field (name : String) : String := "version." ++ name

end Version

/-!
## Appendices

The five kinds of appendix have four forms: the two encrypted kinds share one, a sealed message.
What an appendix holds is whatever was read or put into it; lengths that only some appendices have
a right to are a matter of admission.

A voting model that weighs votes by an asset names the asset, so a poll of any other model has none.
-/

/-! ### Forms -/

/-- A message in the clear, text or binary (`Message`). -/
structure Message where
  version : UInt8
  payload : List UInt8
  isText : Bool
deriving DecidableEq, Repr

namespace Message

/-- A text message of the standard version (`text`). -/
def ofText (text : String) : Message := ⟨Version.standard, Utf8.encode text, true⟩

/-- A binary message of the standard version (`binary`). -/
def ofBytes (payload : List UInt8) : Message := ⟨Version.standard, payload, false⟩

/-- The text of a text message that is UTF-8 (`as_text`). -/
def text? (m : Message) : Option String := if m.isText then Utf8.decode? m.payload else none

end Message

/-- A message encrypted to one account, with the nonce that it was sealed with (`EncryptedBody`, the
data of which are an `EncryptedData`). -/
structure SealedMessage where
  version : UInt8
  ciphertext : List UInt8
  nonce : List UInt8
  /-- Whether the plaintext is text. -/
  isText : Bool
deriving DecidableEq, Repr

namespace SealedMessage

def ofCiphertext (ciphertext nonce : List UInt8) (isText : Bool) : SealedMessage :=
  ⟨Version.standard, ciphertext, nonce, isText⟩

def sealedSize (m : SealedMessage) : Nat := m.ciphertext.length + m.nonce.length

/-- A nonce goes with a ciphertext, at one length, and an empty ciphertext has none
(`has_valid_nonce`). -/
def hasValidNonce (m : SealedMessage) : Bool :=
  if m.ciphertext.isEmpty then m.nonce.isEmpty else m.nonce.length = nonceLength

end SealedMessage

/-- The recipient's public key, made known by the sender (`PublicKeyAnnouncement`). Its length is
looked at on admission. -/
structure Announcement where
  version : UInt8
  key : List UInt8
deriving DecidableEq, Repr

namespace Announcement

def ofKey (key : PublicKey) : Announcement := ⟨Version.standard, key.bytes⟩

/-- The announced key, if it has the length of one. -/
def key? (a : Announcement) : Option PublicKey := PublicKey.ofBytes? a.key

end Announcement

/-- How votes are weighted (`VotingModel`). -/
inductive VotingModel where
  /-- By the voter's balance. -/
  | balance
  /-- One vote for an account. -/
  | account
  /-- By the voter's holding of an asset. -/
  | asset
deriving DecidableEq, Repr

namespace VotingModel

def code : VotingModel → UInt8
  | .balance => 0
  | .account => 1
  | .asset => 2

def ofCode? (code : UInt8) : Option VotingModel :=
  if code = 0 then some .balance
  else if code = 1 then some .account
  else if code = 2 then some .asset
  else none

theorem ofCode?_eq_some_iff {code : UInt8} {model : VotingModel} :
    ofCode? code = some model ↔ model.code = code := by
  constructor
  · intro h
    unfold ofCode? at h
    grind [VotingModel.code]
  · rintro rfl
    cases model <;> rfl

end VotingModel

/-- A voting model with what it needs to weigh votes. -/
inductive Weighting where
  | balance
  | account
  | asset (id : AssetId)
deriving DecidableEq, Repr

namespace Weighting

def model : Weighting → VotingModel
  | .balance => .balance
  | .account => .account
  | .asset _ => .asset

/-- The asset that votes are weighted by, or 0 where no asset is. -/
def assetId : Weighting → AssetId
  | .asset id => id
  | _ => 0

end Weighting

/-- The terms on which a transaction waits for a poll (`TwoPhased`). -/
structure Phasing where
  version : UInt8
  /-- The last height at which votes count. -/
  maxHeight : UInt32
  /-- The weight of votes that approves the transaction. -/
  quorum : UInt64
  /-- The least weight of a vote. -/
  threshold : UInt64
  weighting : Weighting
  /-- The accounts that may vote; any may if none is named. -/
  voters : List AccountId
deriving DecidableEq, Repr

/-! ### Appendices -/

inductive Appendix where
  | message (m : Message)
  | encryptedMessage (m : SealedMessage)
  | announcement (a : Announcement)
  | encryptToSelf (m : SealedMessage)
  | phasing (p : Phasing)
deriving DecidableEq, Repr

namespace Appendix

def kind : Appendix → Kind
  | .message _ => .message
  | .encryptedMessage _ => .encryptedMessage
  | .announcement _ => .announcement
  | .encryptToSelf _ => .encryptToSelf
  | .phasing _ => .phasing

def version : Appendix → UInt8
  | .message m => m.version
  | .encryptedMessage m => m.version
  | .announcement a => a.version
  | .encryptToSelf m => m.version
  | .phasing p => p.version

def withVersion (version : UInt8) : Appendix → Appendix
  | .message m => .message { m with version }
  | .encryptedMessage m => .encryptedMessage { m with version }
  | .announcement a => .announcement { a with version }
  | .encryptToSelf m => .encryptToSelf { m with version }
  | .phasing p => .phasing { p with version }

/-- Whether the appendix may stand on a transaction of a version. -/
def fitsVersion (a : Appendix) (transactionVersion : UInt8) : Bool :=
  Version.fits a.version transactionVersion

end Appendix

/-!
## The appendices of a transaction

A transaction has room for one appendix of each kind. What it holds therefore does not depend on
the order in which they were put in, only on the last one of each kind, and they are always listed
in wire order.
-/

/-- At most one appendix of each kind (`AppendixSet`). -/
structure AppendixSet where
  message : Option Message
  encryptedMessage : Option SealedMessage
  announcement : Option Announcement
  encryptToSelf : Option SealedMessage
  phasing : Option Phasing
deriving DecidableEq, Repr

namespace AppendixSet

def empty : AppendixSet := ⟨none, none, none, none, none⟩

/-- The appendix of a kind (`get`). -/
def get? (s : AppendixSet) : Kind → Option Appendix
  | .message => s.message.map .message
  | .encryptedMessage => s.encryptedMessage.map .encryptedMessage
  | .announcement => s.announcement.map .announcement
  | .encryptToSelf => s.encryptToSelf.map .encryptToSelf
  | .phasing => s.phasing.map .phasing

/-- Put an appendix in, in place of one of its kind (`with`). -/
def insert (s : AppendixSet) : Appendix → AppendixSet
  | .message m => { s with message := some m }
  | .encryptedMessage m => { s with encryptedMessage := some m }
  | .announcement a => { s with announcement := some a }
  | .encryptToSelf m => { s with encryptToSelf := some m }
  | .phasing p => { s with phasing := some p }

/-- Put an appendix in, and say which one it replaces (`insert`). -/
def replace (s : AppendixSet) (a : Appendix) : Option Appendix × AppendixSet :=
  (s.get? a.kind, s.insert a)

/-- Put appendices in one by one, and say which one each of them replaces. -/
def replaceEach (s : AppendixSet) : List Appendix → List (Option Appendix) × AppendixSet
  | [] => ([], s)
  | a :: as =>
    match s.replace a with
    | (replaced, s) =>
      match s.replaceEach as with
      | (others, s) => (replaced :: others, s)

/-- The appendices in a list, the last one of each kind (`from_iter`). -/
def ofList (as : List Appendix) : AppendixSet := as.foldl insert empty

/-- The appendices in wire order (`iter`). -/
def toList (s : AppendixSet) : List Appendix := Kind.all.filterMap s.get?

def size (s : AppendixSet) : Nat := s.toList.length

def isEmpty (s : AppendixSet) : Bool := s.toList.isEmpty

/-- The word of flags that names the kinds present (`flags`). -/
def flags (s : AppendixSet) : UInt32 := Kind.flagsOf (s.toList.map Appendix.kind)

@[simp] theorem get?_empty (k : Kind) : empty.get? k = none := by
  cases k <;> rfl

/-- Putting an appendix in changes what is there of its kind and nothing else. -/
theorem get?_insert (s : AppendixSet) (a : Appendix) (k : Kind) :
    (s.insert a).get? k = if a.kind = k then some a else s.get? k := by
  cases a <;> cases k <;> rfl

/-- What is there of a kind is of that kind. -/
theorem kind_of_get? {s : AppendixSet} {k : Kind} {a : Appendix} (h : s.get? k = some a) :
    a.kind = k := by
  cases k with
  | message => obtain ⟨m, _, rfl⟩ := Option.map_eq_some_iff.1 h; rfl
  | encryptedMessage => obtain ⟨m, _, rfl⟩ := Option.map_eq_some_iff.1 h; rfl
  | announcement => obtain ⟨m, _, rfl⟩ := Option.map_eq_some_iff.1 h; rfl
  | encryptToSelf => obtain ⟨m, _, rfl⟩ := Option.map_eq_some_iff.1 h; rfl
  | phasing => obtain ⟨m, _, rfl⟩ := Option.map_eq_some_iff.1 h; rfl

end AppendixSet

end LedgerAppendix
