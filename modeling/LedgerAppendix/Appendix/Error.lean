import LedgerAppendix.Appendix.Basic
import LedgerAppendix.Json.Text
import LedgerAppendix.Ledger
import LedgerAppendix.Text

/-!
# Why an appendix is refused

A refusal names its cause, and its text is made from the cause alone. What a caller does about a
refusal depends on its class: bytes or fields that cannot be read are the sender's fault, a
violation holds for good, and a conflict with the ledger may go away.
-/

namespace LedgerAppendix

/-! ### Fields of an attachment -/

/-- What is wrong with a field of an attachment. -/
inductive FieldFault where
  | missing
  | notString (got : Json)
  | notWord (got : Json)
  /-- An unsigned integer, but too large for the field. -/
  | outOfRange (value : UInt64)
  | notObject
  | notArray
  | hex (fault : Hex.Fault)
  /-- The version under a field name is no unsigned integer of eight bits. -/
  | badVersion (name : String) (got : Json)
  | unknownModel (code : UInt8)
deriving Repr

/-- What is said of a code that stands for no voting model. -/
def unknownModelText (code : UInt8) : String := "Unknown voting model: " ++ toString code

def FieldFault.message : FieldFault → String
  | .missing => "missing"
  | .notString got => "expected string, got " ++ got.text
  | .notWord got => "expected unsigned integer, got " ++ got.text
  | .outOfRange value => toString value ++ " out of range"
  | .notObject => "expected object"
  | .notArray => "expected array"
  | .hex fault => fault.message
  | .badVersion name got => name ++ " = " ++ got.text
  | .unknownModel code => unknownModelText code

/-! ### Rules of admission -/

/-- A rule of admission that an appendix breaks, whatever the ledger says. -/
inductive Violation where
  | versionMismatch (kind : Kind) (version transactionVersion : UInt8)
  | textOnLegacy
  | messageOnLegacy
  | messageTooLong (length : Nat)
  | messageNotUtf8
  | ciphertextTooLong
  | nonceLength (length : Nat)
  | encryptedWithoutRecipient
  | encryptedOnLegacy
  | encryptToSelfOnLegacy
  | announcementWithoutRecipient
  | keyLength (key : List UInt8)
  | keyOfOtherAccount
  | announcementOnLegacy
  | tooManyVoters
  | assetMissing
deriving DecidableEq, Repr

def Violation.message : Violation → String
  | .versionMismatch kind version transactionVersion =>
    "Invalid attachment version " ++ toString version ++ " for " ++ kind.name ++
      " on transaction version " ++ toString transactionVersion
  | .textOnLegacy => "Text messages not yet enabled"
  | .messageOnLegacy => "Message attachments not enabled for version 0 transactions"
  | .messageTooLong length => "Invalid arbitrary message length: " ++ toString length
  | .messageNotUtf8 => "Message is not UTF-8 text"
  | .ciphertextTooLong => "Max encrypted message length exceeded"
  | .nonceLength length => "Invalid nonce length " ++ toString length
  | .encryptedWithoutRecipient =>
    "Encrypted messages cannot be attached to transactions with no recipient"
  | .encryptedOnLegacy => "Encrypted message attachments not enabled for version 0 transactions"
  | .encryptToSelfOnLegacy =>
    "Encrypt-to-self message attachments not enabled for version 0 transactions"
  | .announcementWithoutRecipient =>
    "PublicKeyAnnouncement cannot be attached to transactions with no recipient"
  | .keyLength key => "Invalid recipient public key length: " ++ Hex.encode key
  | .keyOfOtherAccount => "Announced public key does not match recipient accountId"
  | .announcementOnLegacy => "Public key announcements not enabled for version 0 transactions"
  | .tooManyVoters => "Possible voters list is too big"
  | .assetMissing => "Asset-weighted poll without asset id"

/-- A conflict with what the ledger says now. -/
inductive Conflict where
  /-- The ledger could not say which key the recipient has. -/
  | ledger (error : LedgerError)
  | differentKey
deriving DecidableEq, Repr

def Conflict.message : Conflict → String
  | .ledger error => error.message
  | .differentKey => "A different public key for this account has already been announced"

/-! ### Refusals -/

/-- What a caller has to make of a refusal (`ErrorKind`). -/
inductive ErrorClass where
  /-- The appendix cannot be read: drop the transaction. -/
  | malformed
  /-- The appendix breaks a rule for good: never take the transaction into a block. -/
  | notValid
  /-- The appendix does not agree with the ledger now: try again later. -/
  | notCurrentlyValid
deriving DecidableEq, Repr

/-- Why an appendix is refused (`AppendixError`). -/
inductive AppendixError where
  /-- The bytes end before the field does. -/
  | truncated (needed remaining : Nat)
  | lengthExceeded (field : String) (length max : Nat)
  | tooManyVoters (count max : Nat)
  | invalidVersion (version transactionVersion : UInt8)
  | unknownModel (code : UInt8)
  | unknownFlags (flags : UInt32)
  | trailingBytes (count : Nat)
  | invalidJson (field : String) (fault : FieldFault)
  | notValid (violation : Violation)
  | notCurrentlyValid (conflict : Conflict)
deriving Repr

namespace AppendixError

/-- The class of a refusal (`kind` of `AppendixError`). -/
def errorClass : AppendixError → ErrorClass
  | .notValid _ => .notValid
  | .notCurrentlyValid _ => .notCurrentlyValid
  | _ => .malformed

/-- Whether the transaction may be tried again later (`is_retryable`). -/
def isRetryable (e : AppendixError) : Bool := e.errorClass = .notCurrentlyValid

/-- A word of flags in hexadecimal. -/
def flagsText (flags : UInt32) : String := "0x" ++ String.ofList (Nat.toDigits 16 flags.toNat)

def message : AppendixError → String
  | .truncated needed remaining =>
    "Truncated appendix: needed " ++ toString needed ++ " bytes, " ++ toString remaining ++
      " remaining"
  | .lengthExceeded field length max =>
    "Invalid " ++ field ++ " length: " ++ toString length ++ " (max " ++ toString max ++ ")"
  | .tooManyVoters count max =>
    "Too many possible voters: " ++ toString count ++ " (max " ++ toString max ++ ")"
  | .invalidVersion version transactionVersion =>
    "Invalid appendix version " ++ toString version ++ " for transaction version " ++
      toString transactionVersion
  | .unknownModel code => unknownModelText code
  | .unknownFlags flags => "Unknown appendix flags: " ++ flagsText flags
  | .trailingBytes count => "Trailing bytes after appendices: " ++ toString count
  | .invalidJson field fault => "Invalid JSON field " ++ field ++ ": " ++ fault.message
  | .notValid violation => violation.message
  | .notCurrentlyValid conflict => conflict.message

end AppendixError

end LedgerAppendix
