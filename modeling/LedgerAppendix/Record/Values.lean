import LedgerAppendix.Json.Text
import LedgerAppendix.Poll

/-!
# Stored records

Transactions, polls and limits are stored as JSON. A record is an object with a field for each of
its columns, or an array of all columns in their order and nothing else. Columns that a record does
not know are passed over. Numbers have to fit their column and are never floating-point numbers.

A value out of a few is stored under its name, as a string or as the only field of an object whose
value is null.
-/

namespace LedgerAppendix

namespace Record

/-- The columns of a record, found by name. -/
def columns? (names : List String) : Json → Option (String → Option Json)
  | .object fields => some (Json.Object.get? fields)
  | .array items =>
    if items.length = names.length then some fun name => (names.zip items).lookup name else none
  | _ => none

/-- A column that has to be there. -/
def word64? (column : Option Json) : Option UInt64 := column.bind Json.word?

def word32? (column : Option Json) : Option UInt32 := do
  let n ← word64? column
  if n.toNat < UInt32.size then some n.toUInt32 else none

def byte? (column : Option Json) : Option UInt8 := do
  let n ← word64? column
  if n.toNat < UInt8.size then some n.toUInt8 else none

/-- A column that may be missing or null. -/
def optionalWord64? : Option Json → Option (Option UInt64)
  | none => some none
  | some .null => some none
  | column => (word64? column).map some

/-- A column with a list of numbers. -/
def words? : Option Json → Option (List UInt64)
  | some (.array items) => items.mapM Json.word?
  | _ => none

/-- The number that is the name of a field: its decimal digits, without a zero in front. -/
def key? (text : String) : Option UInt64 :=
  let cs := text.toList
  if cs.isEmpty || !cs.all Char.isDigit || (cs.head? == some '0' && cs.length != 1) then none
  else
    let n := cs.foldl (fun n c => n * 10 + (c.toNat - '0'.toNat)) 0
    if n < UInt64.size then some (UInt64.ofNat n) else none

/-- The one of some values that is stored under its name. -/
def named? {α : Type} (values : List α) (name : α → String) : Json → Option α
  | .string text => values.find? fun v => name v == text
  | .object [(text, .null)] => values.find? fun v => name v == text
  | _ => none

end Record

/-!
## Records of the domain

The stored forms of everything that is kept between runs. Reading takes back what writing produced,
and every other form that a record may have.
-/

open Json (Object)

/-! ### Values with names -/

namespace VotingModel

def name : VotingModel → String
  | .balance => "Balance"
  | .account => "Account"
  | .asset => "Asset"

def all : List VotingModel := [.balance, .account, .asset]

def toRecord (m : VotingModel) : Json := .string m.name

def ofRecord? : Json → Option VotingModel := Record.named? all name

end VotingModel

namespace TransactionType

def name : TransactionType → String
  | .ordinaryPayment => "OrdinaryPayment"
  | .arbitraryMessage => "ArbitraryMessage"
  | .aliasAssignment => "AliasAssignment"
  | .accountInfo => "AccountInfo"
  | .assetTransfer => "AssetTransfer"
  | .voteCasting => "VoteCasting"

def all : List TransactionType :=
  [.ordinaryPayment, .arbitraryMessage, .aliasAssignment, .accountInfo, .assetTransfer,
   .voteCasting]

def toRecord (t : TransactionType) : Json := .string t.name

def ofRecord? : Json → Option TransactionType := Record.named? all name

end TransactionType

namespace PollOutcome

def all : List PollOutcome := [.approved, .rejected]

def toRecord (o : PollOutcome) : Json := .string o.name

def ofRecord? : Json → Option PollOutcome := Record.named? all name

end PollOutcome

namespace PollStatus

def name : PollStatus → String
  | .pending => "Pending"
  | .resolved outcome => outcome.name

def all : List PollStatus := [.pending, .resolved .approved, .resolved .rejected]

def toRecord (s : PollStatus) : Json := .string s.name

def ofRecord? : Json → Option PollStatus := Record.named? all name

end PollStatus

/-! ### Limits and transactions -/

namespace Limits

def columns : List String := ["max_message_length", "max_encrypted_message_length", "max_voters"]

def toRecord (l : Limits) : Json :=
  .object <| Object.ofFields
    [("max_message_length", .ofWord l.maxMessageLength),
     ("max_encrypted_message_length", .ofWord l.maxEncryptedLength),
     ("max_voters", .ofWord l.maxVoters)]

def ofRecord? (json : Json) : Option Limits := do
  let column ← Record.columns? columns json
  let maxMessageLength ← Record.word64? (column "max_message_length")
  let maxEncryptedLength ← Record.word64? (column "max_encrypted_message_length")
  let maxVoters ← Record.word64? (column "max_voters")
  return { maxMessageLength, maxEncryptedLength, maxVoters }

end Limits

/-- An account that need not be there. -/
def accountRecord : Option AccountId → Json
  | none => .null
  | some account => .ofWord account

namespace Transaction

def columns : List String :=
  ["id", "version", "transaction_type", "sender_id", "recipient_id", "amount", "height"]

def toRecord (tx : Transaction) : Json :=
  .object <| Object.ofFields
    [("id", .ofWord tx.id), ("version", .ofWord tx.version.toUInt64),
     ("transaction_type", tx.type.toRecord), ("sender_id", .ofWord tx.sender),
     ("recipient_id", accountRecord tx.recipient), ("amount", .ofWord tx.amount),
     ("height", .ofWord tx.height.toUInt64)]

def ofRecord? (json : Json) : Option Transaction := do
  let column ← Record.columns? columns json
  let id ← Record.word64? (column "id")
  let version ← Record.byte? (column "version")
  let type ← (column "transaction_type").bind TransactionType.ofRecord?
  let sender ← Record.word64? (column "sender_id")
  let recipient ← Record.optionalWord64? (column "recipient_id")
  let amount ← Record.word64? (column "amount")
  let height ← Record.word32? (column "height")
  return { id, version, type, sender, recipient, amount, height }

end Transaction

/-! ### Polls -/

/-- Votes are stored under the decimal digits of the voter. -/
def votesRecord (votes : Table UInt64) : Json :=
  .object <| Object.ofFields <| votes.entries.map fun e => (toString e.1, .ofWord e.2)

/-- Read votes, each under its voter. -/
def votesOfFields? : List (String × Json) → Option (Table UInt64)
  | [] => some .empty
  | (name, value) :: rest => do
    let voter ← Record.key? name
    let weight ← value.word?
    let others ← votesOfFields? rest
    return others.insert voter weight

namespace Poll

def columns : List String :=
  ["id", "max_height", "voting_model", "quorum", "vote_threshold", "asset_id", "possible_voters",
   "sender_id", "recipient_id", "amount", "created_height", "votes"]

def toRecord (p : Poll) : Json :=
  .object <| Object.ofFields
    [("id", .ofWord p.id), ("max_height", .ofWord p.maxHeight.toUInt64),
     ("voting_model", p.model.toRecord), ("quorum", .ofWord p.quorum),
     ("vote_threshold", .ofWord p.threshold), ("asset_id", .ofWord p.assetId),
     ("possible_voters", .array (p.voters.map .ofWord)), ("sender_id", .ofWord p.sender),
     ("recipient_id", accountRecord p.recipient), ("amount", .ofWord p.amount),
     ("created_height", .ofWord p.createdHeight.toUInt64), ("votes", votesRecord p.votes)]

def ofRecord? (json : Json) : Option Poll := do
  let column ← Record.columns? columns json
  let id ← Record.word64? (column "id")
  let maxHeight ← Record.word32? (column "max_height")
  let model ← (column "voting_model").bind VotingModel.ofRecord?
  let quorum ← Record.word64? (column "quorum")
  let threshold ← Record.word64? (column "vote_threshold")
  let assetId ← Record.word64? (column "asset_id")
  let voters ← Record.words? (column "possible_voters")
  let sender ← Record.word64? (column "sender_id")
  let recipient ← Record.optionalWord64? (column "recipient_id")
  let amount ← Record.word64? (column "amount")
  let createdHeight ← Record.word32? (column "created_height")
  let votes ← match column "votes" with
    | some (.object fields) => votesOfFields? fields
    | _ => none
  return { id, maxHeight, model, quorum, threshold, assetId, voters, sender, recipient, amount,
           createdHeight, votes }

end Poll

end LedgerAppendix
