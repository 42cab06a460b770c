import LedgerAppendix.Proofs.Node.PendingPolls
import LedgerAppendix.Proofs.Node.Quorum
import LedgerAppendix.Proofs.Node.Settlement
import LedgerAppendix.Proofs.Poll.Tally

/-!
# Calls without losses

Where no request is lost, what a call makes of the polls is a function of the polls and the ledger:
a poll is opened if its identifier is new, a vote is counted if the poll takes it, and a height ends
the polls that are due, as far as their amounts are not refused. What a vote weighs by an asset does
not depend on what was paid before, as nothing that a node does changes what an account holds.
-/

namespace LedgerAppendix

/-! ### Credits that are refused -/

def PollError.ledger? : PollError → Option LedgerError
  | .ledger e => some e
  | _ => none

/-- The credits that a reply reports as refused. -/
def Reply.refusals : Reply → List LedgerError
  | .resolution (.error e) => e.ledger?.toList
  | .report (.ok r) => r.failed.filterMap (·.2.ledger?)
  | _ => []

/-- Where no request is lost, a height leaves a poll only if the credit is refused. -/
theorem Ledger.failed_settle_eq_nil {l : Ledger} {ps : List Poll}
    (h : (l.settle ps).1.failed.filterMap (·.2.ledger?) = []) : (l.settle ps).1.failed = [] := by
  induction ps generalizing l with
  | nil => rfl
  | cons p ps ih =>
    cases hpay : l.pay p.settlement.credited p.settlement.amount with
    | ok l' =>
      rw [settle_cons_of_paid hpay] at h ⊢
      exact ih h
    | error e =>
      rw [settle_cons_of_refused hpay] at h
      cases h

/-! ### Asset holdings -/

namespace Ledger

/-- Every account holds the same of every asset. -/
def SameHoldings (l l' : Ledger) : Prop :=
  ∀ a asset, l.assetBalance a asset = l'.assetBalance a asset

/-- Changing a record in its balance and its binding only leaves the holdings. -/
theorem assetBalance_setAccount (l : Ledger) {a : AccountId} {record : Account}
    (h : record.assets = (l.account a).assets) (b : AccountId) (asset : AssetId) :
    (l.setAccount a record).assetBalance b asset = l.assetBalance b asset := by
  unfold assetBalance
  rw [account_setAccount]
  split
  · next hab => rw [h, hab]
  · rfl

theorem assetBalance_bindKey (l : Ledger) (a : AccountId) (key : PublicKey) (height : UInt32)
    (b : AccountId) (asset : AssetId) :
    (l.bindKey a key height).2.assetBalance b asset = l.assetBalance b asset := by
  unfold bindKey
  split
  · apply assetBalance_setAccount
    rfl
  · rfl

theorem assetBalance_pay {l l' : Ledger} {account? : Option AccountId} {amount : UInt64}
    (h : l.pay account? amount = .ok l') (b : AccountId) (asset : AssetId) :
    l'.assetBalance b asset = l.assetBalance b asset := by
  cases account? with
  | none =>
    cases h
    rfl
  | some a =>
    have hcredit : l.credit a amount = .ok l' := h
    unfold credit at hcredit
    split at hcredit
    · cases hcredit
      apply assetBalance_setAccount
      rfl
    · cases hcredit

end Ledger

namespace Node

variable {faults : Faults} {n n' : Node}

theorem Step.assetBalance {m : Move} (h : n.Step faults m n') (a : AccountId) (asset : AssetId) :
    n'.ledger.assetBalance a asset = n.ledger.assetBalance a asset := by
  cases h with
  | idle => rfl
  | bound => exact Ledger.assetBalance_bindKey ..
  | opened => rfl
  | voted => rfl
  | released _ _ hpaid => exact Ledger.assetBalance_pay hpaid a asset
  | restored => rfl
  | stranded => rfl

theorem Moves.assetBalance {ms : List Move} (h : n.Moves faults ms n') (a : AccountId)
    (asset : AssetId) : n'.ledger.assetBalance a asset = n.ledger.assetBalance a asset := by
  induction h with
  | nil => rfl
  | cons hstep _ ih => exact ih.trans (hstep.assetBalance a asset)

end Node

/-! ### Votes -/

/-- What a vote on the poll weighs. -/
def Poll.weigh (p : Poll) (l : Ledger) (voter : AccountId) : UInt64 :=
  match p.model with
  | .account => 1
  | .balance => l.balance voter
  | .asset => l.assetBalance voter p.assetId

/-- The poll with a vote in it, if it takes the vote at a height. -/
def Poll.voted? (p : Poll) (l : Ledger) (voter : AccountId) (height : UInt32) : Option Poll :=
  if (p.voteRefusal? voter height).isNone ∧ p.threshold ≤ p.weigh l voter then
    some (p.vote voter (p.weigh l voter))
  else none

/-- Unless votes are weighed by balances, it is enough that the holdings are the same. -/
theorem Poll.voted?_congr {p : Poll} (hmodel : p.model ≠ .balance) {l l' : Ledger}
    (h : l.SameHoldings l') (voter : AccountId) (height : UInt32) :
    p.voted? l voter height = p.voted? l' voter height := by
  have hweigh : p.weigh l voter = p.weigh l' voter := by
    unfold weigh
    split
    · rfl
    · next hbalance => exact absurd hbalance hmodel
    · exact h voter p.assetId
  unfold voted?
  rw [hweigh]

theorem Poll.of_voted? {p q : Poll} {l : Ledger} {voter : AccountId} {height : UInt32}
    (h : p.voted? l voter height = some q) :
    ∃ weight, p.votes.get? voter = none ∧ q = p.vote voter weight := by
  unfold voted? at h
  split at h
  · next htaken =>
    cases h
    have hnew := (Poll.voteRefusal?_eq_none_iff.1 (Option.isNone_iff_eq_none.1 htaken.1)).2.2
    exact ⟨_, hnew, rfl⟩
  · cases h

namespace Node

variable {n : Node}

theorem voteWeight_none (n : Node) (p : Poll) (voter : AccountId) :
    ∃ k, n.voteWeight .none p voter =
      (.ok (p.weigh n.ledger voter), { n with requests := k }) := by
  unfold voteWeight Poll.weigh
  cases p.model with
  | account => exact ⟨n.requests, rfl⟩
  | balance => exact ⟨n.requests + 1, rfl⟩
  | asset => exact ⟨n.requests + 1, rfl⟩

theorem countVote_of_light {p : Poll} {weight : UInt64} (hlight : weight < p.threshold)
    (faults : Faults) (voter : AccountId) :
    n.countVote faults p voter weight = (.error (.belowThreshold weight p.threshold), n) :=
  if_pos hlight

theorem countVote_of_heavy (hs : n.polls.Sound) {p : Poll}
    (hp : n.polls.pending.get? p.id = some p) {weight : UInt64} (hheavy : p.threshold ≤ weight)
    (voter : AccountId) :
    ∃ k, n.countVote .none p voter weight =
      (.ok (p.vote voter weight).tally,
        { n with
          polls := n.polls.put (p.vote voter weight)
          journal := n.journal ++ (Move.voted p voter weight).events
          requests := k }) := by
  have hupdate : n.updatePoll .none (p.vote voter weight) =
      (.ok (), { n.tick with polls := n.polls.put (p.vote voter weight) }) := by
    apply askStore_of_answers rfl
    have hcontains : n.polls.pending.contains (p.vote voter weight).id = true :=
      Option.isSome_iff_exists.2 ⟨p, hp⟩
    rw [PollStore.update, hs.whenAvailable, if_pos hcontains]
    rfl
  rw [countVote, if_neg (UInt64.not_lt.2 hheavy)]
  dsimp only
  rw [hupdate]
  exact ⟨_, rfl⟩

/-- No vote is counted that the poll itself does not take. -/
theorem vote_of_refused (hs : n.polls.Sound) {p : Poll}
    (hp : n.polls.pending.get? p.id = some p) {voter : AccountId} {height : UInt32}
    {e : PollError} (hrefused : p.voteRefusal? voter height = some e) :
    n.vote .none p.id voter height = (.error e, n.tick) := by
  rw [vote, getPoll_of_kept hs p.id rfl, hp]
  dsimp only
  rw [hrefused]

/-- One that the poll takes is counted with what it weighs. -/
theorem vote_of_taken (hs : n.polls.Sound) {p : Poll}
    (hp : n.polls.pending.get? p.id = some p) {voter : AccountId} {height : UInt32}
    (htaken : p.voteRefusal? voter height = none) :
    ∃ k, n.vote .none p.id voter height =
      countVote { n with requests := k } .none p voter (p.weigh n.ledger voter) := by
  obtain ⟨k, hweight⟩ := voteWeight_none n.tick p voter
  rw [vote, getPoll_of_kept hs p.id rfl, hp]
  dsimp only
  rw [htaken]
  dsimp only
  rw [hweight]
  exact ⟨k, rfl⟩

theorem polls_vote_of_missing (hs : n.polls.Sound) {id : TransactionId}
    (hmissing : n.polls.pending.get? id = none) (voter : AccountId) (height : UInt32) :
    (n.vote .none id voter height).2.polls = n.polls := by
  rw [vote_of_missing hs hmissing voter height rfl rfl]
  rfl

theorem polls_vote_of_pending (hs : n.polls.Sound) {p : Poll}
    (hp : n.polls.pending.get? p.id = some p) (voter : AccountId) (height : UInt32) :
    (n.vote .none p.id voter height).2.polls =
      (p.voted? n.ledger voter height).elim n.polls n.polls.put := by
  unfold Poll.voted?
  cases htaken : p.voteRefusal? voter height with
  | some e =>
    rw [vote_of_refused hs hp htaken, if_neg (by simp)]
    rfl
  | none =>
    obtain ⟨k, hcount⟩ := vote_of_taken hs hp htaken
    rw [hcount]
    by_cases hheavy : p.threshold ≤ p.weigh n.ledger voter
    · obtain ⟨k, hcounted⟩ := countVote_of_heavy (n := { n with requests := k }) hs hp hheavy voter
      rw [hcounted, if_pos ⟨rfl, hheavy⟩]
      rfl
    · rw [countVote_of_light (UInt64.not_le.1 hheavy), if_neg fun h => hheavy h.2]
      rfl

/-! ### Openings -/

/-- A phasing opens its poll if the identifier is new. -/
theorem applyPhasing_of_new (hs : n.polls.Sound) {tx : Transaction} {p : Phasing}
    (hpending : n.polls.pending.get? tx.id = none) (hended : n.polls.outcomes.get? tx.id = none) :
    (n.applyPhasing .none tx p).1 = .pollOpened tx.id ∧
      (n.applyPhasing .none tx p).2.polls = n.polls.put (Poll.ofTransaction tx p) := by
  rcases applyPhasing_cases (Prod.eta (n.applyPhasing .none tx p)).symm with
    ⟨-, heffect, hn⟩ | ⟨hopens, -⟩
  · rw [hn]
    exact ⟨heffect, rfl⟩
  · exact absurd ⟨rfl, hs.isAvailable, hpending, hended⟩ hopens

/-- And it does not if the identifier was there before. -/
theorem applyPhasing_of_known {tx : Transaction} {p : Phasing}
    (hknown : ¬(n.polls.pending.get? tx.id = none ∧ n.polls.outcomes.get? tx.id = none)) :
    (n.applyPhasing .none tx p).1 = .pollNotStored tx.id ∧
      (n.applyPhasing .none tx p).2.polls = n.polls := by
  rcases applyPhasing_cases (Prod.eta (n.applyPhasing .none tx p)).symm with
    ⟨hopens, -⟩ | ⟨-, heffect, e, hn⟩
  · exact absurd ⟨hopens.pending, hopens.ended⟩ hknown
  · rw [hn]
    exact ⟨heffect, rfl⟩

/-! ### Heights -/

theorem polls_resolveDue_of_paid (hs : n.polls.Sound) {config : Config} {height : UInt32}
    {reply : Reply} {n' : Node} (h : n.perform .none config (.resolveDue height) = (reply, n'))
    (hpaid : reply.refusals = []) : n'.polls = n.polls.endDue config.resolveEarly height := by
  obtain ⟨m, hanswer, -, hpolls⟩ := perform_resolveDue_none hs config height
  rw [h] at hanswer
  cases hanswer
  rw [hpolls, Ledger.resolved_settle (Ledger.failed_settle_eq_nil hpaid)]
  rfl

end Node

end LedgerAppendix
