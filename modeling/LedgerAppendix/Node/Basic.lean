import LedgerAppendix.Appendix.Admission
import LedgerAppendix.Config
import LedgerAppendix.Poll

/-!
# Nodes, their journal and their collaborators

A node works on an account ledger and a poll store that may fail it. Every request to one of the two
can be lost, and then it has had no effect. Which requests are lost is laid down by a schedule that
numbers the requests, so any pattern of losses can be described, be it a single lost request or a
ledger that cannot be credited for a while.

The functions here make one request each. All that a node does is put together from them.
-/

namespace LedgerAppendix

/-!
## The journal

A node writes down what happens to it, and everything that it reports afterwards is read off this
journal: the lines of its log and its counters. Not every event has a line, and not every event is
counted.
-/

inductive Level where
  | error
  | warn
  | info
  | debug
deriving DecidableEq, Repr

inductive Event where
  | bytesRefused (flags : UInt32) (error : AppendixError)
  | fieldsRefused (error : AppendixError)
  | notAdmitted (transaction : TransactionId) (refusal : Refusal)
  | keyBound (account : AccountId) (height : UInt32)
  /-- An account has a different key than the one announced. -/
  | keyIgnored (account : AccountId) (transaction : TransactionId)
  | keyBindingFailed (account : AccountId) (transaction : TransactionId) (error : LedgerError)
  | pollOpened (id : TransactionId) (maxHeight : UInt32)
  | pollNotStored (id : TransactionId) (error : StorageError)
  | voteCounted (id : TransactionId) (voter : AccountId) (weight tally quorum : UInt64)
  | pollResolved (id : TransactionId) (outcome : PollOutcome) (tally quorum amount : UInt64)
      (credited : Option AccountId)
  /-- The withheld amount could not be credited. -/
  | releaseFailed (id : TransactionId) (account : AccountId) (error : LedgerError)
  /-- Nor could the poll be made pending again. -/
  | amountStranded (id : TransactionId) (error : StorageError)
  | pollLeft (id : TransactionId) (height : UInt32) (error : PollError)
  | heightDone (height : UInt32) (resolved failed : Nat)
deriving Repr

namespace Event

/-- An account that need not be there. -/
def accountText : Option AccountId → String
  | none => "None"
  | some account => "Some(" ++ toString account ++ ")"

/-- The line of the log for an event: how much it matters, and its text. -/
def line? : Event → Option (Level × String)
  | .bytesRefused flags error =>
    line .debug
      ("Rejected appendix bytes (flags " ++ AppendixError.flagsText flags ++ "): " ++ error.message)
  | .fieldsRefused error => line .debug ("Rejected appendix JSON: " ++ error.message)
  | .notAdmitted _ (.version ..) => none
  | .notAdmitted transaction (.appendix kind error) =>
    line .debug
      (kind.name ++ " rejected on transaction " ++ toString transaction ++ ": " ++ error.message)
  | .keyBound account height =>
    line .debug
      ("Bound public key to account " ++ toString account ++ " at height " ++ toString height)
  | .keyIgnored account transaction =>
    line .warn
      ("Account " ++ toString account ++
        " has a different public key, ignoring announcement in tx " ++ toString transaction)
  | .keyBindingFailed account transaction error =>
    line .error
      ("Failed to bind public key for account " ++ toString account ++ " (tx " ++
        toString transaction ++ "): " ++ error.message)
  | .pollOpened id maxHeight =>
    line .info
      ("Registered pending poll " ++ toString id ++ " (deadline height " ++ toString maxHeight ++
        ")")
  | .pollNotStored id error =>
    line .error ("Failed to persist pending poll " ++ toString id ++ ": " ++ error.message)
  | .voteCounted id voter weight tally quorum =>
    line .debug
      ("Vote on poll " ++ toString id ++ " by " ++ toString voter ++ " (weight " ++
        toString weight ++ ", tally " ++ toString tally ++ "/" ++ toString quorum ++ ")")
  | .pollResolved id outcome tally quorum amount credited =>
    line .info
      ("Poll " ++ toString id ++ " resolved as " ++ outcome.name ++ " (tally " ++ toString tally ++
        "/" ++ toString quorum ++ ", " ++ toString amount ++ " released to " ++
        accountText credited ++ ")")
  | .releaseFailed id account error =>
    line .error
      ("Escrow release for poll " ++ toString id ++ " to " ++ toString account ++ " failed: " ++
        error.message)
  | .amountStranded id error =>
    line .error
      ("Poll " ++ toString id ++ " could not be reinstated, escrow stranded: " ++ error.message)
  | .pollLeft id height error =>
    line .error
      ("Poll " ++ toString id ++ " left unresolved at height " ++ toString height ++ ": " ++
        error.message)
  | .heightDone height resolved failed =>
    line .info
      ("Resolved " ++ toString resolved ++ " poll(s) at height " ++ toString height ++ " (" ++
        toString failed ++ " failed)")
where
  line (level : Level) (text : String) : Option (Level × String) := some (level, "[qc-18] " ++ text)

def isPollOpened : Event → Bool
  | .pollOpened .. => true
  | _ => false

def isPollNotStored : Event → Bool
  | .pollNotStored .. => true
  | _ => false

/-- Whether the event is the end of a poll with an outcome. -/
def isResolvedAs (outcome : PollOutcome) : Event → Bool
  | .pollResolved _ o .. => o = outcome
  | _ => false

/-- Whether the event is the refusal of an appendix of a kind on admission. -/
def isRefusalOf (kind : Kind) : Event → Bool
  | .notAdmitted _ refusal => refusal.kind = kind
  | _ => false

end Event

abbrev Journal := List Event

namespace Journal

def lines (j : Journal) : List (Level × String) := j.filterMap Event.line?

/-- Number of polls that were opened (counted by `record_poll_registered`). -/
def pollsOpened (j : Journal) : Nat := j.countP Event.isPollOpened

/-- Number of polls that the store would not take (counted by `record_poll_persist_failure`). -/
def pollsNotStored (j : Journal) : Nat := j.countP Event.isPollNotStored

/-- Number of polls that have ended with an outcome (counted by `record_poll_resolved`). -/
def pollsResolved (j : Journal) (outcome : PollOutcome) : Nat :=
  j.countP (Event.isResolvedAs outcome)

/-- Number of appendices of a kind that were refused on admission (counted by
`record_appendix_rejected`). -/
def refusals (j : Journal) (kind : Kind) : Nat := j.countP (Event.isRefusalOf kind)

end Journal

/-! ## Requests -/

/-- What is asked of the ledger (`AccountLedger`). -/
inductive LedgerRequest where
  | balance
  | assetBalance
  | credit
  | debit
  | publicKey
  | bindKey
deriving DecidableEq, Repr

/-- What is asked of the poll store (`PendingPollStore`). -/
inductive StoreRequest where
  | save
  | update
  | get
  | retire
  | reinstate
  | outcome
  | list
deriving DecidableEq, Repr

/-- Which requests are lost, by their number and what they ask for, and the reason given. -/
structure Faults where
  ledger : Nat → LedgerRequest → Option String
  store : Nat → StoreRequest → Option String

def Faults.none : Faults := ⟨fun _ _ => .none, fun _ _ => .none⟩

/-- A node (`AppendixService` with its two collaborators): the ledger, the polls, what happened so
far, and how many requests were made. -/
structure Node where
  ledger : Ledger
  polls : PollStore
  journal : Journal
  requests : Nat

namespace Node

def ofLedger (ledger : Ledger) : Node := ⟨ledger, .empty, [], 0⟩

def record (n : Node) (e : Event) : Node := { n with journal := n.journal ++ [e] }

def tick (n : Node) : Node := { n with requests := n.requests + 1 }

/-- Ask the ledger, unless the request is lost. -/
def askLedger {α : Type} (n : Node) (faults : Faults) (request : LedgerRequest)
    (answer : Ledger → Except LedgerError (α × Ledger)) : Except LedgerError α × Node :=
  match faults.ledger n.requests request with
  | some reason => (.error (.backend reason), n.tick)
  | none =>
    match answer n.ledger with
    | .error e => (.error e, n.tick)
    | .ok (a, ledger) => (.ok a, { n.tick with ledger })

/-- Ask the poll store, unless the request is lost. -/
def askStore {α : Type} (n : Node) (faults : Faults) (request : StoreRequest)
    (answer : PollStore → Except StorageError (α × PollStore)) : Except StorageError α × Node :=
  match faults.store n.requests request with
  | some reason => (.error (.unavailable (.backend reason)), n.tick)
  | none =>
    match answer n.polls with
    | .error e => (.error e, n.tick)
    | .ok (a, polls) => (.ok a, { n.tick with polls })

/-! ### The ledger -/

def balance (n : Node) (faults : Faults) (a : AccountId) : Except LedgerError UInt64 × Node :=
  n.askLedger faults .balance fun l => .ok (l.balance a, l)

def assetBalance (n : Node) (faults : Faults) (a : AccountId) (asset : AssetId) :
    Except LedgerError UInt64 × Node :=
  n.askLedger faults .assetBalance fun l => .ok (l.assetBalance a asset, l)

def credit (n : Node) (faults : Faults) (a : AccountId) (amount : UInt64) :
    Except LedgerError Unit × Node :=
  n.askLedger faults .credit fun l => (l.credit a amount).map ((), ·)

def debit (n : Node) (faults : Faults) (a : AccountId) (amount : UInt64) :
    Except LedgerError Unit × Node :=
  n.askLedger faults .debit fun l => (l.debit a amount).map ((), ·)

def publicKey (n : Node) (faults : Faults) (a : AccountId) :
    Except LedgerError (Option PublicKey) × Node :=
  n.askLedger faults .publicKey fun l => .ok (l.publicKey? a, l)

def bindKey (n : Node) (faults : Faults) (a : AccountId) (key : PublicKey) (height : UInt32) :
    Except LedgerError Bool × Node :=
  n.askLedger faults .bindKey fun l => .ok (l.bindKey a key height)

/-! ### The poll store -/

def savePoll (n : Node) (faults : Faults) (p : Poll) : Except StorageError Unit × Node :=
  n.askStore faults .save fun s => (s.save p).map ((), ·)

def updatePoll (n : Node) (faults : Faults) (p : Poll) : Except StorageError Unit × Node :=
  n.askStore faults .update fun s => (s.update p).map ((), ·)

def getPoll (n : Node) (faults : Faults) (id : TransactionId) :
    Except StorageError (Option Poll) × Node :=
  n.askStore faults .get fun s => (s.get? id).map (·, s)

def retirePoll (n : Node) (faults : Faults) (id : TransactionId) (outcome : PollOutcome) :
    Except StorageError (Option Poll) × Node :=
  n.askStore faults .retire fun s => s.retire id outcome

def reinstatePoll (n : Node) (faults : Faults) (p : Poll) : Except StorageError Unit × Node :=
  n.askStore faults .reinstate fun s => (s.reinstate p).map ((), ·)

def pollOutcome (n : Node) (faults : Faults) (id : TransactionId) :
    Except StorageError (Option PollOutcome) × Node :=
  n.askStore faults .outcome fun s => (s.outcome? id).map (·, s)

def pendingPolls (n : Node) (faults : Faults) : Except StorageError (List Poll) × Node :=
  n.askStore faults .list fun s => s.list.map (·, s)

/-- Whether a poll is pending (the store's `exists`). This is asked by asking for the poll. -/
def hasPoll (n : Node) (faults : Faults) (id : TransactionId) : Except StorageError Bool × Node :=
  match n.getPoll faults id with
  | (.ok found, n) => (.ok found.isSome, n)
  | (.error e, n) => (.error e, n)

end Node

end LedgerAppendix
