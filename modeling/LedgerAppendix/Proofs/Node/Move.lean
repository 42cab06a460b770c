import LedgerAppendix.Node.Call
import LedgerAppendix.Proofs.Node.Request
import Mathlib.Algebra.Ring.Nat

/-!
# Moves of a node

Whatever is asked of a node, its ledger and its polls change by moves of seven kinds. `Step` says
when a node can make a move and what it is afterwards; the calls are shown to be made of such steps
in `Proofs.Node.Run`. What holds of every step holds of every run.

A move stands for all that happens between two states that a caller could see. A poll that is
retired, cannot be paid out and is reinstated is one move, `restored`, and in this move the polls
stay as they are. That a request is made at all shows only in the count, which a step may set to
any number.
-/

namespace LedgerAppendix

/-! ### Payments -/

/-- Pay an amount out, unless there is no account that it goes to. -/
def Ledger.pay (l : Ledger) (account? : Option AccountId) (amount : UInt64) :
    Except LedgerError Ledger :=
  match account? with
  | none => .ok l
  | some account => l.credit account amount

/-- A credit adds to one balance, without wrapping around. -/
theorem Ledger.balance_credit {l l' : Ledger} {account : AccountId} {amount : UInt64}
    (h : l.credit account amount = .ok l') (a : AccountId) :
    (l'.balance a).toNat = (l.balance a).toNat + if account = a then amount.toNat else 0 := by
  unfold credit at h
  split at h
  · next hfits =>
    cases h
    rw [balance_setBalance]
    by_cases ha : account = a
    · rw [if_pos ha, if_pos ha, ← ha, UInt64.toNat_add, Nat.mod_eq_of_lt hfits]
    · rw [if_neg ha, if_neg ha, Nat.add_zero]
  · cases h

theorem Ledger.balance_pay {l l' : Ledger} {account? : Option AccountId} {amount : UInt64}
    (h : l.pay account? amount = .ok l') (a : AccountId) :
    (l'.balance a).toNat = (l.balance a).toNat + if account? = some a then amount.toNat else 0 := by
  cases account? with
  | none =>
    cases h
    rfl
  | some account =>
    rw [balance_credit h a]
    simp only [Option.some.injEq]

/-- An amount is refused where there is no room for it, and for no other reason. -/
theorem Ledger.pay_eq_error_iff {l : Ledger} {account? : Option AccountId} {amount : UInt64}
    {e : LedgerError} :
    l.pay account? amount = .error e ↔ ∃ account, account? = some account ∧
      e = .balanceOverflow account ∧ UInt64.size ≤ (l.balance account).toNat + amount.toNat := by
  cases account? with
  | none => simp [pay]
  | some account =>
    unfold pay credit
    dsimp only
    by_cases hroom : (l.balance account).toNat + amount.toNat < UInt64.size
    · rw [if_pos hroom]
      simp [hroom]
    · rw [if_neg hroom]
      simp [Nat.not_lt.1 hroom, eq_comm]

/-- What a resolution has added to the balance of an account. -/
def Resolution.paid (r : Resolution) (a : AccountId) : Nat :=
  if r.credited = some a then r.amount.toNat else 0

/-! ### Openings and resolutions -/

/-- What one entry contributes to a list comes first. -/
theorem filterMap_cons_toList {α β : Type} (f : α → Option β) (a : α) (l : List α) :
    (a :: l).filterMap f = (f a).toList ++ l.filterMap f := by
  cases ha : f a with
  | none => exact List.filterMap_cons_none ha
  | some b => exact List.filterMap_cons_some ha

/-- A phasing, and the transaction that waits for it. -/
structure Opening where
  tx : Transaction
  phasing : Phasing
deriving DecidableEq, Repr

/-- The poll that is opened. -/
def Opening.poll (o : Opening) : Poll := Poll.ofTransaction o.tx o.phasing

/-- The end of a poll with an outcome. -/
def Poll.resolution (p : Poll) (outcome : PollOutcome) : Resolution :=
  ⟨p.id, outcome, p.beneficiary? outcome, p.amount⟩

/-! ### Events -/

namespace Event

/-- Events that go with no change of the ledger or the polls, and with no attempt at one that is
    told of elsewhere. -/
def isNote : Event → Bool
  | .bytesRefused .. | .fieldsRefused .. | .notAdmitted .. | .keyIgnored .. | .keyBindingFailed ..
  | .pollNotStored .. | .pollLeft .. | .heightDone .. => true
  | .keyBound .. | .pollOpened .. | .voteCounted .. | .pollResolved .. | .releaseFailed ..
  | .amountStranded .. => false

/-- Whether the event tells of a release of the amount that a poll withholds, or of an attempt. -/
def isReleaseOf (id : TransactionId) : Event → Bool
  | .pollResolved poll .. | .releaseFailed poll .. => poll = id
  | _ => false

theorem isReleaseOf_of_isNote {e : Event} (h : e.isNote) (id : TransactionId) :
    e.isReleaseOf id = false := by
  cases e <;> first | rfl | cases h

end Event

/-! ### Moves -/

/-- What a node does to its ledger and its polls. -/
inductive Move where
  /-- Neither the ledger nor the polls change. -/
  | idle (notes : List Event)
  | bound (account : AccountId) (key : PublicKey) (height : UInt32)
  | opened (o : Opening)
  | voted (p : Poll) (voter : AccountId) (weight : UInt64)
  /-- A poll has ended, and the amount went to where it belongs. -/
  | released (p : Poll) (outcome : PollOutcome)
  /-- The ledger would not take the amount, and the poll is still pending. -/
  | restored (p : Poll) (account : AccountId) (error : LedgerError)
  /-- The ledger would not take the amount, and the poll has ended all the same. -/
  | stranded (p : Poll) (outcome : PollOutcome) (account : AccountId) (error : LedgerError)
      (fault : StorageError)

namespace Move

/-- What a move leaves in the journal. -/
def events : Move → List Event
  | .idle notes => notes
  | .bound account _ height => [.keyBound account height]
  | .opened o => [.pollOpened o.tx.id o.phasing.maxHeight]
  | .voted p voter weight =>
    [.voteCounted p.id voter weight (p.vote voter weight).tally p.quorum]
  | .released p outcome =>
    [.pollResolved p.id outcome p.tally p.quorum p.amount (p.beneficiary? outcome)]
  | .restored p account error => [.releaseFailed p.id account error]
  | .stranded p _ account error fault =>
    [.releaseFailed p.id account error, .amountStranded p.id fault]

def opening? : Move → Option Opening
  | .opened o => some o
  | _ => none

def resolution? : Move → Option Resolution
  | .released p outcome => some (p.resolution outcome)
  | _ => none

/-- The poll whose amount was released, or was to be. -/
def attempt? : Move → Option TransactionId
  | .released p _ | .restored p .. | .stranded p .. => some p.id
  | .idle _ | .bound .. | .opened _ | .voted .. => none

theorem resolution?_of_attempt? {m : Move} (h : m.attempt? = none) : m.resolution? = none := by
  cases m <;> first | rfl | cases h

end Move

namespace Node

/-- A node can make a move, and is another one afterwards. -/
inductive Step (faults : Faults) (n : Node) : Move → Node → Prop
  | idle {notes : List Event} (k : Nat) (hnotes : ∀ e ∈ notes, e.isNote) :
    Step faults n (.idle notes)
      { n with journal := n.journal ++ (Move.idle notes).events, requests := k }
  | bound {account : AccountId} {key : PublicKey} {height : UInt32} (k : Nat)
    (hbound : (n.ledger.bindKey account key height).1 = true) :
    Step faults n (.bound account key height)
      { n with
        ledger := (n.ledger.bindKey account key height).2
        journal := n.journal ++ (Move.bound account key height).events
        requests := k }
  | opened {o : Opening} (k : Nat) (hpending : n.polls.pending.get? o.tx.id = none)
    (hended : n.polls.outcomes.get? o.tx.id = none) :
    Step faults n (.opened o)
      { n with
        polls := n.polls.put o.poll
        journal := n.journal ++ (Move.opened o).events
        requests := k }
  | voted {p : Poll} {voter : AccountId} {weight : UInt64} {height : UInt32} (k : Nat)
    (hpending : n.polls.pending.get? p.id = some p)
    (htaken : p.voteRefusal? voter height = none) (hweight : p.threshold ≤ weight) :
    Step faults n (.voted p voter weight)
      { n with
        polls := n.polls.put (p.vote voter weight)
        journal := n.journal ++ (Move.voted p voter weight).events
        requests := k }
  | released {p : Poll} {outcome : PollOutcome} {ledger : Ledger} (k : Nat)
    (hpending : n.polls.pending.get? p.id = some p)
    (hpaid : n.ledger.pay (p.beneficiary? outcome) p.amount = .ok ledger) :
    Step faults n (.released p outcome)
      { ledger
        polls := n.polls.finish p.id outcome
        journal := n.journal ++ (Move.released p outcome).events
        requests := k }
  | restored {p : Poll} {outcome : PollOutcome} {account : AccountId} {error : LedgerError}
    (k : Nat) (hpending : n.polls.pending.get? p.id = some p)
    (hbeneficiary : p.beneficiary? outcome = some account) :
    Step faults n (.restored p account error)
      { n with journal := n.journal ++ (Move.restored p account error).events, requests := k }
  | stranded {p : Poll} {outcome : PollOutcome} {account : AccountId} {error : LedgerError}
    {fault : StorageError} {reason : String} (j k : Nat)
    (hpending : n.polls.pending.get? p.id = some p)
    (hbeneficiary : p.beneficiary? outcome = some account)
    (hlost : faults.store j .reinstate = some reason) :
    Step faults n (.stranded p outcome account error fault)
      { n with
        polls := n.polls.finish p.id outcome
        journal := n.journal ++ (Move.stranded p outcome account error fault).events
        requests := k }

/-- A node can make some moves, one after the other. -/
inductive Moves (faults : Faults) : Node → List Move → Node → Prop
  | nil (n : Node) : Moves faults n [] n
  | cons {n n' n'' : Node} {m : Move} {ms : List Move} (hstep : n.Step faults m n')
    (hrest : Moves faults n' ms n'') : Moves faults n (m :: ms) n''

section Laws

variable {faults : Faults} {n n' n'' : Node} {m : Move} {ms ms' : List Move}

theorem Moves.single (h : n.Step faults m n') : n.Moves faults [m] n' := .cons h (.nil n')

theorem Moves.append (h : n.Moves faults ms n') (h' : n'.Moves faults ms' n'') :
    n.Moves faults (ms ++ ms') n'' := by
  induction h with
  | nil => exact h'
  | cons hstep _ ih => exact .cons hstep (ih h')

/-! ### What every move keeps to -/

theorem Step.journal (h : n.Step faults m n') : n'.journal = n.journal ++ m.events := by
  cases h <;> rfl

theorem Step.sound (h : n.Step faults m n') (hs : n.polls.Sound) : n'.polls.Sound := by
  cases h with
  | idle => exact hs
  | bound => exact hs
  | opened _ _ hended => exact hs.put hended
  | voted _ hpending => exact hs.put (hs.not_ended hpending)
  | released => exact hs.finish _ _
  | restored => exact hs
  | stranded => exact hs.finish _ _

theorem Moves.sound (h : n.Moves faults ms n') (hs : n.polls.Sound) : n'.polls.Sound := by
  induction h with
  | nil => exact hs
  | cons hstep _ ih => exact ih (hstep.sound hs)

/-- Only a release moves a balance, and it does so by what the resolution says. -/
theorem Step.balance (h : n.Step faults m n') (a : AccountId) :
    (n'.ledger.balance a).toNat =
      (n.ledger.balance a).toNat + (m.resolution?.toList.map (Resolution.paid · a)).sum := by
  cases h with
  | idle => rfl
  | bound => exact congrArg UInt64.toNat (Ledger.balance_bindKey ..)
  | opened => rfl
  | voted => rfl
  | released _ _ hpaid =>
    rw [Move.resolution?, Option.toList_some, List.map_singleton, List.sum_singleton]
    exact Ledger.balance_pay hpaid a
  | restored => rfl
  | stranded => rfl

theorem Moves.balance (h : n.Moves faults ms n') (a : AccountId) :
    (n'.ledger.balance a).toNat =
      (n.ledger.balance a).toNat +
        ((ms.filterMap Move.resolution?).map (Resolution.paid · a)).sum := by
  induction h with
  | nil => rfl
  | @cons n n' n'' m ms hstep hrest ih =>
    rw [ih, hstep.balance a, filterMap_cons_toList, List.map_append, List.sum_append, Nat.add_assoc]

/-! ### Polls that have ended -/

/-- A move leaves the outcome of a poll that has ended, and does not release its amount. -/
theorem Step.ended (h : n.Step faults m n') (hs : n.polls.Sound) {id : TransactionId}
    {outcome : PollOutcome} (hended : n.polls.outcomes.get? id = some outcome) :
    n'.polls.outcomes.get? id = some outcome ∧ m.attempt? ≠ some id := by
  have hother : ∀ {p : Poll}, n.polls.pending.get? p.id = some p → p.id ≠ id := by
    intro p hpending hid
    have hnone := hs.not_ended hpending
    rw [hid, hended] at hnone
    cases hnone
  have hkept : ∀ {p : Poll} (o : PollOutcome), n.polls.pending.get? p.id = some p →
      (n.polls.finish p.id o).outcomes.get? id = some outcome := by
    intro p o hpending
    rw [PollStore.outcomes_finish, if_neg (hother hpending), hended]
  cases h with
  | idle => exact ⟨hended, nofun⟩
  | bound => exact ⟨hended, nofun⟩
  | opened => exact ⟨hended, nofun⟩
  | voted => exact ⟨hended, nofun⟩
  | released _ hpending =>
    exact ⟨hkept _ hpending, fun hid => hother hpending (Option.some.inj hid)⟩
  | restored _ hpending => exact ⟨hended, fun hid => hother hpending (Option.some.inj hid)⟩
  | stranded _ _ hpending =>
    exact ⟨hkept _ hpending, fun hid => hother hpending (Option.some.inj hid)⟩

/-- The journal tells of a release only where one was attempted. -/
theorem Step.filter_events (h : n.Step faults m n') {id : TransactionId}
    (hid : m.attempt? ≠ some id) : m.events.filter (Event.isReleaseOf id) = [] := by
  have hother : ∀ {poll : TransactionId}, some poll ≠ some id → ¬ decide (poll = id) = true := by
    intro poll hne heq
    exact hne (congrArg some (of_decide_eq_true heq))
  cases h with
  | idle _ hnotes =>
    refine List.filter_eq_nil_iff.2 fun e he => ?_
    rw [Event.isReleaseOf_of_isNote (hnotes e he)]
    exact Bool.false_ne_true
  | bound => rfl
  | opened => rfl
  | voted => rfl
  | released => exact List.filter_cons_of_neg (hother hid)
  | restored => exact List.filter_cons_of_neg (hother hid)
  | stranded => exact List.filter_cons_of_neg (hother hid)

theorem Moves.ended (h : n.Moves faults ms n') (hs : n.polls.Sound) {id : TransactionId}
    {outcome : PollOutcome} (hended : n.polls.outcomes.get? id = some outcome) :
    n'.polls.outcomes.get? id = some outcome ∧ (∀ m ∈ ms, m.attempt? ≠ some id) ∧
      n'.journal.filter (Event.isReleaseOf id) = n.journal.filter (Event.isReleaseOf id) := by
  induction h with
  | nil => exact ⟨hended, List.forall_mem_nil _, rfl⟩
  | cons hstep _ ih =>
    obtain ⟨hkept, hid⟩ := hstep.ended hs hended
    obtain ⟨hlast, hrest, hjournal⟩ := ih (hstep.sound hs) hkept
    refine ⟨hlast, ?_, ?_⟩
    · intro m hm
      rcases List.mem_cons.1 hm with rfl | hm
      · exact hid
      · exact hrest m hm
    · rw [hjournal, hstep.journal, List.filter_append, hstep.filter_events hid, List.append_nil]

end Laws

end Node

end LedgerAppendix
