import LedgerAppendix.Attachment
import LedgerAppendix.Node.Basic
import LedgerAppendix.Wire

/-!
# What a node does

A node reads appendices and admits them, lets the appendices of confirmed transactions take effect,
counts votes and resolves polls. Each of these is put together from single requests to the ledger
and the store.
-/

namespace LedgerAppendix

/-!
## Reading and admitting appendices

A node reads the appendices of a transaction by its limits and admits them by the same ones. None of
this changes the ledger or the polls; a refusal goes into the journal.
-/

namespace Node

/-- Read the appendices of a transaction from bytes (the service's `parse_bytes`). -/
def parseBytes (n : Node) (limits : Limits) (flags : UInt32) (data : List UInt8)
    (transactionVersion : UInt8) : Except AppendixError AppendixSet × Node :=
  match AppendixSet.decode flags data transactionVersion limits with
  | .ok s => (.ok s, n)
  | .error e => (.error e, n.record (.bytesRefused flags e))

/-- Read the appendices of a transaction from an object (the service's `parse_json`). -/
def parseObject (n : Node) (o : Json.Object) : Except AppendixError AppendixSet × Node :=
  match AppendixSet.ofObject o with
  | .ok s => (.ok s, n)
  | .error e => (.error e, n.record (.fieldsRefused e))

/-- The keys that the node's ledger answers with at the next request. -/
def keys (n : Node) (faults : Faults) : KeyLookup := fun a => (n.publicKey faults a).1

/-- Admit the appendices of a transaction (the service's `validate`). At most one key is asked for,
the recipient's, and room for that request is kept whether it is made or not. -/
def validate (n : Node) (faults : Faults) (limits : Limits) (tx : Transaction) (s : AppendixSet) :
    Except AppendixError Unit × Node :=
  match s.refusal? tx limits (n.keys faults) with
  | none => (.ok (), n.tick)
  | some r => (.error r.error, n.tick.record (.notAdmitted tx.id r))

end Node

/-!
## Effects of confirmed transactions

When a transaction is confirmed, each of its appendices takes effect once, in wire order. An
announcement binds the recipient's key, a phasing opens a poll, and messages change nothing. A
collaborator that fails is written into the journal and holds up nothing, because the transaction is
in the chain already.
-/

/-- What an appendix did when it took effect (`ApplyEffect`). -/
inductive Effect where
  | none
  | keyBound (account : AccountId)
  | pollOpened (id : TransactionId)
  /-- The store did not take the poll. -/
  | pollNotStored (id : TransactionId)
  /-- The ledger did not answer. -/
  | ledgerFault
deriving DecidableEq, Repr

namespace Node

/-- Bind the announced key to the recipient, unless the account has another one (`apply` of
`PublicKeyAnnouncement`). -/
def applyAnnouncement (n : Node) (faults : Faults) (tx : Transaction) (a : Announcement) :
    Effect × Node :=
  match tx.recipient, a.key? with
  | some recipient, some key =>
    match n.bindKey faults recipient key tx.height with
    | (.ok true, n) => (.keyBound recipient, n.record (.keyBound recipient tx.height))
    | (.ok false, n) => (.none, n.record (.keyIgnored recipient tx.id))
    | (.error e, n) => (.ledgerFault, n.record (.keyBindingFailed recipient tx.id e))
  | _, _ => (.none, n)

/-- Open a poll (`apply` of `TwoPhased`). -/
def applyPhasing (n : Node) (faults : Faults) (tx : Transaction) (p : Phasing) : Effect × Node :=
  match n.savePoll faults (Poll.ofTransaction tx p) with
  | (.ok (), n) => (.pollOpened tx.id, n.record (.pollOpened tx.id p.maxHeight))
  | (.error e, n) => (.pollNotStored tx.id, n.record (.pollNotStored tx.id e))

/-- Let an appendix take effect (`apply` of `Appendix`). -/
def applyAppendix (n : Node) (faults : Faults) (tx : Transaction) (a : Appendix) : Effect × Node :=
  match a with
  | .announcement a => n.applyAnnouncement faults tx a
  | .phasing p => n.applyPhasing faults tx p
  | .message _ | .encryptedMessage _ | .encryptToSelf _ => (.none, n)

/-- Let some appendices take effect, one after the other (`apply` of `AppendixSet`). -/
def applyEach (n : Node) (faults : Faults) (tx : Transaction) : List Appendix → List Effect × Node
  | [] => ([], n)
  | a :: as =>
    match n.applyAppendix faults tx a with
    | (effect, n) =>
      match n.applyEach faults tx as with
      | (effects, n) => (effect :: effects, n)

/-- Let the appendices of a confirmed transaction take effect (the service's `apply`). -/
def apply (n : Node) (faults : Faults) (tx : Transaction) (s : AppendixSet) : List Effect × Node :=
  n.applyEach faults tx s.toList

end Node

/-!
## Voting

A vote is weighed when it is cast and counted with that weight for good. Whether a poll takes the
vote is a matter of the poll and the height; only then is the ledger asked for the weight, which
has to reach the poll's threshold.
-/

/-- Why a poll does not take a vote at a height, the weight apart (the first three checks of
`record_vote`). -/
def Poll.voteRefusal? (p : Poll) (voter : AccountId) (height : UInt32) : Option PollError :=
  if p.maxHeight < height then some (.votingClosed p.id p.maxHeight height)
  else if !p.isEligible voter then some (.notEligible p.id voter)
  else if p.hasVoted voter then some (.duplicateVote p.id voter)
  else none

namespace Node

/-- Why no pending poll was found: it has ended, or there never was one (the service's `missing`).
-/
def missingPoll (n : Node) (faults : Faults) (id : TransactionId) : PollError × Node :=
  match n.pollOutcome faults id with
  | (.ok (some outcome), n) => (.alreadyResolved id outcome, n)
  | (.ok none, n) => (.notFound id, n)
  | (.error e, n) => (.storage e, n)

/-- What the vote of an account weighs (the service's `vote_weight`). -/
def voteWeight (n : Node) (faults : Faults) (p : Poll) (voter : AccountId) :
    Except LedgerError UInt64 × Node :=
  match p.model with
  | .account => (.ok 1, n)
  | .balance => n.balance faults voter
  | .asset => n.assetBalance faults voter p.assetId

/-- Count a vote of some weight on a poll that takes it (the end of `record_vote`). -/
def countVote (n : Node) (faults : Faults) (p : Poll) (voter : AccountId) (weight : UInt64) :
    Except PollError UInt64 × Node :=
  if weight < p.threshold then (.error (.belowThreshold weight p.threshold), n)
  else
    let voted := p.vote voter weight
    match n.updatePoll faults voted with
    | (.error e, n) => (.error (.storage e), n)
    | (.ok (), n) =>
      (.ok voted.tally, n.record (.voteCounted p.id voter weight voted.tally p.quorum))

/-- Cast a vote at a height (the service's `record_vote`). The answer is the tally with the vote in
it. -/
def vote (n : Node) (faults : Faults) (id : TransactionId) (voter : AccountId) (height : UInt32) :
    Except PollError UInt64 × Node :=
  match n.getPoll faults id with
  | (.error e, n) => (.error (.storage e), n)
  | (.ok none, n) =>
    match n.missingPoll faults id with
    | (e, n) => (.error e, n)
  | (.ok (some p), n) =>
    match p.voteRefusal? voter height with
    | some e => (.error e, n)
    | none =>
      match n.voteWeight faults p voter with
      | (.error e, n) => (.error (.ledger e), n)
      | (.ok weight, n) => n.countVote faults p voter weight

end Node

/-!
## Resolving polls

To resolve a poll, it is retired first and the withheld amount is released afterwards, so that a
second attempt finds no poll any more and cannot release the amount again. If the release fails,
the poll is made pending again, and it can be resolved another time. Only if that fails too is the
amount stranded.

At a height, every pending poll is looked at in the order of identifiers. One that cannot be
resolved does not hold up the others.
-/

/-- A poll that was resolved, and what became of its amount (`PollResolution`). -/
structure Resolution where
  id : TransactionId
  outcome : PollOutcome
  /-- The account that the amount was credited to, if any. -/
  credited : Option AccountId
  amount : UInt64
deriving DecidableEq, Repr

/-- What was done about the polls at one height (`DueResolutions`). -/
structure HeightReport where
  resolved : List Resolution
  /-- The polls that could not be resolved, and why. -/
  failed : List (TransactionId × PollError)
deriving DecidableEq, Repr

namespace HeightReport

def empty : HeightReport := ⟨[], []⟩

def isEmpty (r : HeightReport) : Bool := r.resolved.isEmpty && r.failed.isEmpty

/-- Whether every poll that was to be resolved has been. -/
def isComplete (r : HeightReport) : Bool := r.failed.isEmpty

end HeightReport

namespace Node

/-- Write down the end of a poll whose amount was released, and report it (the end of `resolve`). -/
def closePoll (n : Node) (p : Poll) (id : TransactionId) (outcome : PollOutcome) :
    Except PollError Resolution × Node :=
  let credited := p.beneficiary? outcome
  (.ok ⟨id, outcome, credited, p.amount⟩,
    n.record (.pollResolved id outcome p.tally p.quorum p.amount credited))

/-- Make a poll pending again whose amount could not be released (as `resolve` does in the end). -/
def takeBack (n : Node) (faults : Faults) (p : Poll) (id : TransactionId) : Node :=
  match n.reinstatePoll faults p with
  | (.ok (), n) => n
  | (.error e, n) => n.record (.amountStranded id e)

/-- Release the amount of a poll that has been retired (as `resolve` goes on to do). -/
def release (n : Node) (faults : Faults) (p : Poll) (id : TransactionId) (outcome : PollOutcome) :
    Except PollError Resolution × Node :=
  match p.beneficiary? outcome with
  | none => n.closePoll p id outcome
  | some account =>
    match n.credit faults account p.amount with
    | (.ok (), n) => n.closePoll p id outcome
    | (.error e, n) =>
      (.error (.ledger e), (n.record (.releaseFailed id account e)).takeBack faults p id)

/-- End a pending poll and release its amount (the service's `resolve`). -/
def resolve (n : Node) (faults : Faults) (id : TransactionId) (outcome : PollOutcome) :
    Except PollError Resolution × Node :=
  match n.retirePoll faults id outcome with
  | (.error e, n) => (.error (.storage e), n)
  | (.ok none, n) =>
    match n.missingPoll faults id with
    | (e, n) => (.error e, n)
  | (.ok (some p), n) => n.release faults p id outcome

/-- Approve a poll (the service's `commit`). -/
def commit (n : Node) (faults : Faults) (id : TransactionId) : Except PollError Resolution × Node :=
  n.resolve faults id .approved

/-- Reject a poll (the service's `rollback`). -/
def rollback (n : Node) (faults : Faults) (id : TransactionId) :
    Except PollError Resolution × Node :=
  n.resolve faults id .rejected

/-- Resolve those of some polls that are to be resolved at a height (the loop of `resolve_due`). -/
def resolveEach (n : Node) (faults : Faults) (resolveEarly : Bool) (height : UInt32) :
    List Poll → HeightReport × Node
  | [] => (.empty, n)
  | p :: ps =>
    match p.decision? resolveEarly height with
    | none => n.resolveEach faults resolveEarly height ps
    | some outcome =>
      match n.resolve faults p.id outcome with
      | (.ok resolution, n) =>
        match n.resolveEach faults resolveEarly height ps with
        | (report, n) => ({ report with resolved := resolution :: report.resolved }, n)
      | (.error e, n) =>
        match (n.record (.pollLeft p.id height e)).resolveEach faults resolveEarly height ps with
        | (report, n) => ({ report with failed := (p.id, e) :: report.failed }, n)

/-- Resolve every poll that is to be resolved at a height (the service's `resolve_due`). -/
def resolveDue (n : Node) (faults : Faults) (resolveEarly : Bool) (height : UInt32) :
    Except PollError HeightReport × Node :=
  match n.pendingPolls faults with
  | (.error e, n) => (.error (.storage e), n)
  | (.ok polls, n) =>
    match n.resolveEach faults resolveEarly height polls with
    | (report, n) =>
      (.ok report,
        if report.isEmpty then n
        else n.record (.heightDone height report.resolved.length report.failed.length))

/-- Where a poll stands (the service's `status`). -/
def status (n : Node) (faults : Faults) (id : TransactionId) : Except PollError PollStatus × Node :=
  match n.hasPoll faults id with
  | (.error e, n) => (.error (.storage e), n)
  | (.ok true, n) => (.ok .pending, n)
  | (.ok false, n) =>
    match n.pollOutcome faults id with
    | (.error e, n) => (.error (.storage e), n)
    | (.ok (some outcome), n) => (.ok (.resolved outcome), n)
    | (.ok none, n) => (.error (.notFound id), n)

end Node

/-!
## Calls

Everything that a node can be asked for, as data, with the reply to each. A run is a sequence of
calls, and each call comes with the configuration that is in force when it is made.
-/

/-- What a node can be asked for (`AppendixApi`). -/
inductive Call where
  | parseBytes (flags : UInt32) (data : List UInt8) (transactionVersion : UInt8)
  | parseObject (object : Json.Object)
  | validate (tx : Transaction) (appendices : AppendixSet)
  | apply (tx : Transaction) (appendices : AppendixSet)
  | vote (id : TransactionId) (voter : AccountId) (height : UInt32)
  | commit (id : TransactionId)
  | rollback (id : TransactionId)
  | resolveDue (height : UInt32)
  | status (id : TransactionId)

inductive Reply where
  | appendices (result : Except AppendixError AppendixSet)
  | admission (result : Except AppendixError Unit)
  | effects (effects : List Effect)
  | tally (result : Except PollError UInt64)
  | resolution (result : Except PollError Resolution)
  | report (result : Except PollError HeightReport)
  | status (result : Except PollError PollStatus)

namespace Node

def perform (n : Node) (faults : Faults) (config : Config) : Call → Reply × Node
  | .parseBytes flags data version =>
    (n.parseBytes config.limits flags data version).map .appendices id
  | .parseObject o => (n.parseObject o).map .appendices id
  | .validate tx s => (n.validate faults config.limits tx s).map .admission id
  | .apply tx s => (n.apply faults tx s).map .effects id
  | .vote poll voter height => (n.vote faults poll voter height).map .tally id
  | .commit poll => (n.commit faults poll).map .resolution id
  | .rollback poll => (n.rollback faults poll).map .resolution id
  | .resolveDue height => (n.resolveDue faults config.resolveEarly height).map .report id
  | .status poll => (n.status faults poll).map .status id

def run (n : Node) (faults : Faults) : List (Config × Call) → List Reply × Node
  | [] => ([], n)
  | (config, call) :: calls =>
    match n.perform faults config call with
    | (reply, n) =>
      match n.run faults calls with
      | (replies, n) => (reply :: replies, n)

end Node

end LedgerAppendix
