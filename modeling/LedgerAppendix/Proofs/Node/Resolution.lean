import LedgerAppendix.Proofs.Node.Finality

/-!
# Ending a poll is atomic

In every state that a node can get into, a call that is to end a poll does all that it should or
changes neither the ledger nor the polls. The one exception is a poll that can be neither paid out
nor reinstated, and a call that comes to that fails.
-/

namespace LedgerAppendix

/-- The call that ends a poll with an outcome. -/
def Call.ending (id : TransactionId) : PollOutcome → Call
  | .approved => .commit id
  | .rejected => .rollback id

namespace Node

variable {n n' : Node} {faults : Faults} {id : TransactionId} {outcome : PollOutcome}

theorem perform_ending (n : Node) (faults : Faults) (config : Config) (id : TransactionId)
    (outcome : PollOutcome) :
    n.perform faults config (.ending id outcome) =
      (.resolution (n.resolve faults id outcome).1, (n.resolve faults id outcome).2) := by
  cases outcome <;> rfl

/-! ### States that a node can get into -/

/-- A node that had no polls in the beginning can get into this state by calls, whichever requests
    are lost, while the ledger may be changed by others between any two of them. -/
inductive Reachable : Node → Prop
  | start (ledger : Ledger) : Reachable (ofLedger ledger)
  | called {n n' : Node} {faults : Faults} {config : Config} {call : Call} {reply : Reply}
    (hn : Reachable n) (hcall : n.perform faults config call = (reply, n')) : Reachable n'
  | ledgerChanged {n : Node} (ledger : Ledger) (hn : Reachable n) : Reachable { n with ledger }

theorem Reachable.sound (h : n.Reachable) : n.polls.Sound := by
  induction h with
  | start => exact PollStore.sound_empty
  | called _ hcall ih =>
    obtain ⟨ms, hmoves, -⟩ := perform_moves ih hcall
    exact hmoves.sound ih
  | ledgerChanged _ _ ih => exact ih

theorem Reachable.run (h : n.Reachable) {calls : List (Config × Call)} {replies : List Reply}
    (hrun : n.run faults calls = (replies, n')) : n'.Reachable := by
  induction calls generalizing n replies with
  | nil =>
    cases hrun
    exact h
  | cons call calls ih =>
    obtain ⟨reply, n₁, rest, hperform, hrest, rfl⟩ := of_run_cons hrun
    exact ih (h.called hperform) hrest

/-! ### Attempts by a call -/

/-- What an attempt to end a poll makes of the ledger and the polls. -/
theorem resolve_effect (hs : n.polls.Sound) {r : Except PollError Resolution}
    (h : n.resolve faults id outcome = (r, n')) :
    (n.CanEnd faults id outcome ∧ ∃ p, n.polls.pending.get? id = some p ∧
      r = .ok (p.resolution outcome) ∧ n'.polls = n.polls.finish id outcome ∧
      n.ledger.pay (p.beneficiary? outcome) p.amount = .ok n'.ledger) ∨
    (¬n.CanEnd faults id outcome ∧ ∃ e, r = .error e ∧ n'.ledger = n.ledger ∧
      (n.Strands faults id outcome ∧ n'.polls = n.polls.finish id outcome ∨
        ¬n.Strands faults id outcome ∧ n'.polls = n.polls)) := by
  rcases resolve_cases hs h with ⟨hend, p, ledger, k, rfl, hpending, hpaid, rfl, rfl⟩ |
    ⟨hstrands, p, account, error, fault, k, rfl, -, -, rfl, rfl⟩ |
    ⟨hend, hstrands, e, rfl, ⟨k, rfl⟩ | ⟨p, account, error, k, -, -, rfl⟩⟩
  · -- paid out
    exact .inl ⟨hend, p, hpending, rfl, rfl, hpaid⟩
  · -- stranded
    exact .inr ⟨hstrands.not_canEnd, _, rfl, rfl, .inl ⟨hstrands, rfl⟩⟩
  · -- refused before anything is retired
    exact .inr ⟨hend, e, rfl, rfl, .inr ⟨hstrands, rfl⟩⟩
  · -- put back
    exact .inr ⟨hend, e, rfl, rfl, .inr ⟨hstrands, rfl⟩⟩

/-- An attempt to end a poll, by a call, ends it and pays its amount out by one payment, or changes
    neither the ledger nor the polls, whatever else fails, unless it strands the amount. -/
theorem resolve_atomic (hn : n.Reachable) {config : Config} {reply : Reply}
    (h : n.perform faults config (.ending id outcome) = (reply, n')) :
    (∀ r, reply = .resolution (.ok r) →
      ∃ p, n.polls.pending.get? id = some p ∧ r = p.resolution outcome ∧
        n'.polls = n.polls.finish id outcome ∧
        n.ledger.pay (p.beneficiary? outcome) p.amount = .ok n'.ledger) ∧
    (∀ e, reply = .resolution (.error e) →
      n'.ledger = n.ledger ∧
      (n.Strands faults id outcome → n'.polls = n.polls.finish id outcome) ∧
      (¬n.Strands faults id outcome → n'.polls = n.polls)) ∧
    (n.CanEnd faults id outcome → ∃ r, reply = .resolution (.ok r)) ∧
    (¬n.CanEnd faults id outcome → ∃ e, reply = .resolution (.error e)) ∧
    (n.Strands faults id outcome → ¬n.CanEnd faults id outcome) := by
  rw [perform_ending] at h
  cases h
  rcases resolve_effect hn.sound (Prod.eta (n.resolve faults id outcome)).symm with
    ⟨hend, p, hpending, hr, hpolls, hpaid⟩ | ⟨hend, e, hr, hledger, hpolls⟩
  · rw [hr]
    refine ⟨?_, nofun, fun _ => ⟨_, rfl⟩, fun hnot => absurd hend hnot, Strands.not_canEnd⟩
    intro r heq
    cases heq
    exact ⟨p, hpending, rfl, hpolls, hpaid⟩
  · rw [hr]
    refine ⟨nofun, ?_, fun hnot => absurd hnot hend, fun _ => ⟨_, rfl⟩, Strands.not_canEnd⟩
    intro _ _
    refine ⟨hledger, fun hstrands => ?_, fun hkept => ?_⟩
    · exact (hpolls.resolve_right fun hother => hother.1 hstrands).2
    · exact (hpolls.resolve_left fun hother => hkept hother.1).2

/-- A payment with a vote, whose recipient holds the greatest balance there is. -/
def votedNode : Node :=
  ((ofLedger fullLedger).run .none
    [(.standard, phasedPayment 7 1 (some 2) 10), (.standard, .vote 7 3 150)]).2

/-- If it cannot be reinstated either, approving it strands its amount, and else it stays pending
    with its vote. -/
theorem resolve_atomic_full :
    votedNode.Reachable ∧
      (votedNode.perform lostReinstate .standard (.ending 7 .approved)).2.polls =
        votedNode.polls.finish 7 .approved ∧
      (votedNode.perform .none .standard (.ending 7 .approved)).2.polls = votedNode.polls := by
  have hreached : votedNode.Reachable := (Reachable.start fullLedger).run (Prod.eta _).symm
  obtain ⟨p, hpending, haccount, hfull⟩ : ∃ p, votedNode.polls.pending.get? 7 = some p ∧
      p.beneficiary? .approved = some 2 ∧
      UInt64.size ≤ (votedNode.ledger.balance 2).toNat + p.amount.toNat := by
    refine ⟨_, rfl, rfl, ?_⟩
    decide +kernel
  have hfails : ∀ faults, votedNode.PaymentFails faults p .approved :=
    fun _ => ⟨2, haccount, .inr hfull⟩
  obtain ⟨-, hlost, -, herror, -⟩ := resolve_atomic hreached
    (Prod.eta (votedNode.perform lostReinstate .standard (.ending 7 .approved))).symm
  obtain ⟨-, hkept, -, herror', -⟩ := resolve_atomic hreached
    (Prod.eta (votedNode.perform .none .standard (.ending 7 .approved))).symm
  refine ⟨hreached, ?_, ?_⟩
  · obtain ⟨e, he⟩ := herror fun hend => ((canEnd_iff hpending).1 hend).2 (hfails _)
    exact (hlost e he).2.1 ((strands_iff hpending).2 ⟨rfl, hfails _, rfl⟩)
  · obtain ⟨e, he⟩ := herror' fun hend => ((canEnd_iff hpending).1 hend).2 (hfails _)
    refine (hkept e he).2.2 fun hstrands => ?_
    exact Bool.false_ne_true ((strands_iff hpending).1 hstrands).2.2

end Node

end LedgerAppendix
