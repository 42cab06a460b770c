import LedgerAppendix.Appendix.Basic
import LedgerAppendix.Ledger
import LedgerAppendix.Table
import LedgerAppendix.Transaction

/-!
# Polls

A transaction with a phasing is confirmed, but its amount is withheld until a poll decides. The
poll keeps what it needs to release the amount later: the terms, the sender, the recipient and the
amount. Votes are kept with the weight that they were counted with.

A poll is decided by the sum of these weights. The running tally stops at the greatest 64-bit
number, which a quorum cannot exceed either.
-/

namespace LedgerAppendix

inductive PollOutcome where
  | approved
  | rejected
deriving DecidableEq, Repr

def PollOutcome.name : PollOutcome → String
  | .approved => "Approved"
  | .rejected => "Rejected"

inductive PollStatus where
  | pending
  | resolved (outcome : PollOutcome)
deriving DecidableEq, Repr

/-- A phased transaction that waits for its votes (`PendingPoll`). -/
structure Poll where
  /-- The transaction that opened the poll. -/
  id : TransactionId
  /-- The last height at which votes count. -/
  maxHeight : UInt32
  model : VotingModel
  quorum : UInt64
  threshold : UInt64
  assetId : AssetId
  /-- The accounts that may vote; any may if none is named. -/
  voters : List AccountId
  sender : AccountId
  recipient : Option AccountId
  /-- What is withheld until the poll ends. -/
  amount : UInt64
  /-- Height at which the transaction was confirmed. -/
  createdHeight : UInt32
  /-- The weight that each voter's vote was counted with. -/
  votes : Table UInt64
deriving DecidableEq, Repr

def maxWord : UInt64 := UInt64.ofNat (UInt64.size - 1)

/-- The sum of two numbers, or the greatest number where the sum is beyond it. -/
def saturatingAdd (a b : UInt64) : UInt64 :=
  if a.toNat + b.toNat < UInt64.size then a + b else maxWord

namespace Poll

/-- The poll that a transaction opens by its phasing (`new` of `PendingPoll`). -/
def ofTransaction (tx : Transaction) (p : Phasing) : Poll where
  id := tx.id
  maxHeight := p.maxHeight
  model := p.weighting.model
  quorum := p.quorum
  threshold := p.threshold
  assetId := p.weighting.assetId
  voters := p.voters
  sender := tx.sender
  recipient := tx.recipient
  amount := tx.amount
  createdHeight := tx.height
  votes := .empty

/-- Whether an account may vote (`is_eligible`). Everyone may where no voters are named. -/
def isEligible (p : Poll) (voter : AccountId) : Bool := p.voters.isEmpty || p.voters.contains voter

/-- Whether an account has voted (`has_voted`). -/
def hasVoted (p : Poll) (voter : AccountId) : Bool := p.votes.contains voter

def vote (p : Poll) (voter : AccountId) (weight : UInt64) : Poll :=
  { p with votes := p.votes.insert voter weight }

/-- The weight of all votes, stopped at the greatest number (`tally`). -/
def tally (p : Poll) : UInt64 := p.votes.values.foldl saturatingAdd 0

/-- Whether the votes reach the quorum (`is_approved`). -/
def isApproved (p : Poll) : Bool := p.quorum ≤ p.tally

/-- Whether the last height for votes is reached (`is_due`). -/
def isDue (p : Poll) (height : UInt32) : Bool := p.maxHeight ≤ height

/-- What becomes of the poll at a height, if it is to be resolved there (as `resolve_due` decides
it): a poll that is due ends either way, and one that has its quorum may end before. -/
def decision? (p : Poll) (resolveEarly : Bool) (height : UInt32) : Option PollOutcome :=
  if p.isDue height then some (if p.isApproved then .approved else .rejected)
  else if resolveEarly && p.isApproved then some .approved
  else none

/-- The account that the withheld amount goes to (as `resolve` picks it): the recipient, if there is
one, or back to the sender. -/
def beneficiary? (p : Poll) : PollOutcome → Option AccountId
  | .approved => p.recipient
  | .rejected => some p.sender

end Poll

/-!
## The poll store

Pending polls are kept under their identifiers, and so are the outcomes of polls that have ended.
To retire a poll takes it from the one table and puts its outcome into the other; to reinstate it
is the way back. A poll whose identifier is in either table cannot be saved again.

A store that is switched off refuses every request and keeps what it has.
-/

/-- Why the store cannot do what it is asked. -/
inductive Outage where
  /-- The store is switched off. -/
  | disabled
  | notPending (id : TransactionId)
  /-- The store could not be reached. -/
  | backend (reason : String)
deriving DecidableEq, Repr

def Outage.message : Outage → String
  | .disabled => "in-memory store disabled"
  | .notPending id => "poll " ++ toString id ++ " is not pending"
  | .backend reason => reason

inductive StorageError where
  | duplicate (id : TransactionId)
  | unavailable (outage : Outage)
deriving DecidableEq, Repr

def StorageError.message : StorageError → String
  | .duplicate id => "Poll " ++ toString id ++ " already stored"
  | .unavailable outage => "Poll storage unavailable: " ++ outage.message

/-- The polls that are pending, and the outcomes of the others (`InMemoryPollStore`). -/
structure PollStore where
  pending : Table Poll
  outcomes : Table PollOutcome
  isAvailable : Bool
deriving DecidableEq, Repr

namespace PollStore

def empty : PollStore := ⟨.empty, .empty, true⟩

def pendingCount (s : PollStore) : Nat := s.pending.size

/-- Answer a request, unless the store is switched off (the store's `check_available`). -/
def whenAvailable {α : Type} (s : PollStore) (answer : Except StorageError α) :
    Except StorageError α :=
  if s.isAvailable then answer else .error (.unavailable .disabled)

/-! ### Looking up -/

/-- A pending poll (the store's `get`). -/
def get? (s : PollStore) (id : TransactionId) : Except StorageError (Option Poll) :=
  s.whenAvailable (.ok (s.pending.get? id))

/-- The outcome of a poll that has ended (the store's `outcome`). -/
def outcome? (s : PollStore) (id : TransactionId) : Except StorageError (Option PollOutcome) :=
  s.whenAvailable (.ok (s.outcomes.get? id))

/-- The pending polls, ascending by identifier (the store's `pending`). -/
def list (s : PollStore) : Except StorageError (List Poll) := s.whenAvailable (.ok s.pending.values)

/-! ### Changing -/

/-- Add a poll that was not there before (the store's `save`). -/
def save (s : PollStore) (p : Poll) : Except StorageError PollStore :=
  s.whenAvailable <|
    if s.pending.contains p.id || s.outcomes.contains p.id then .error (.duplicate p.id)
    else .ok { s with pending := s.pending.insert p.id p }

/-- Put a poll in place of the pending one with its identifier (the store's `update`). -/
def update (s : PollStore) (p : Poll) : Except StorageError PollStore :=
  s.whenAvailable <|
    if s.pending.contains p.id then .ok { s with pending := s.pending.insert p.id p }
    else .error (.unavailable (.notPending p.id))

/-- End a pending poll, and hand it out (the store's `retire`). -/
def retire (s : PollStore) (id : TransactionId) (outcome : PollOutcome) :
    Except StorageError (Option Poll × PollStore) :=
  s.whenAvailable <|
    match s.pending.get? id with
    | none => .ok (none, s)
    | some p =>
      .ok (some p,
        { s with pending := s.pending.erase id, outcomes := s.outcomes.insert id outcome })

/-- Make a poll pending again, and forget its outcome (the store's `reinstate`). -/
def reinstate (s : PollStore) (p : Poll) : Except StorageError PollStore :=
  s.whenAvailable <|
    if s.pending.contains p.id then .error (.duplicate p.id)
    else .ok { s with pending := s.pending.insert p.id p, outcomes := s.outcomes.erase p.id }

end PollStore

/-!
## Why a poll is not voted on or resolved

Either the poll itself forbids it, or one of the two collaborators, the store and the ledger,
refuses its part.
-/

inductive PollError where
  /-- No poll was ever opened under the identifier. -/
  | notFound (id : TransactionId)
  | alreadyResolved (id : TransactionId) (outcome : PollOutcome)
  | votingClosed (id : TransactionId) (maxHeight height : UInt32)
  | notEligible (id : TransactionId) (voter : AccountId)
  | duplicateVote (id : TransactionId) (voter : AccountId)
  | belowThreshold (weight threshold : UInt64)
  | storage (error : StorageError)
  | ledger (error : LedgerError)
deriving DecidableEq, Repr

def PollError.message : PollError → String
  | .notFound id => "Pending poll not found: " ++ toString id
  | .alreadyResolved id outcome =>
    "Poll " ++ toString id ++ " already resolved as " ++ outcome.name
  | .votingClosed id maxHeight height =>
    "Voting on poll " ++ toString id ++ " closed at height " ++ toString maxHeight ++
      " (current " ++ toString height ++ ")"
  | .notEligible id voter =>
    "Account " ++ toString voter ++ " is not a possible voter on poll " ++ toString id
  | .duplicateVote id voter =>
    "Account " ++ toString voter ++ " already voted on poll " ++ toString id
  | .belowThreshold weight threshold =>
    "Vote weight " ++ toString weight ++ " below threshold " ++ toString threshold
  | .storage error => error.message
  | .ledger error => error.message

end LedgerAppendix
