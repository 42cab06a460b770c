import LedgerAppendix.Node.Call
import LedgerAppendix.Proofs.Node.Move

/-!
# Attempts to end a poll

To end a poll is to retire it, to pay its amount out, and to reinstate it if that fails. What comes
of an attempt depends on which of the three requests are lost and on whether the balance has room,
and on nothing else: the poll ends and its amount is paid, or the ledger and the polls stay as they
were, or, where both the payment and the way back fail, the poll ends and nothing is paid. Which of
these it is can be told beforehand (`resolve_cases`).
-/

namespace LedgerAppendix

namespace Node

variable {n n' : Node} {faults : Faults} {id : TransactionId} {outcome : PollOutcome} {p : Poll}

/-! ### What an attempt will come to -/

/-- The payment of a poll's amount, which is the second request of an attempt, is lost, or the
    balance has no room for it. -/
def PaymentFails (n : Node) (faults : Faults) (p : Poll) (outcome : PollOutcome) : Prop :=
  ∃ account, p.beneficiary? outcome = some account ∧
    ((faults.ledger (n.requests + 1) .credit).isSome ∨
      UInt64.size ≤ (n.ledger.balance account).toNat + p.amount.toNat)

/-- The poll is pending and can be retired, and its amount can be paid. -/
def CanEnd (n : Node) (faults : Faults) (id : TransactionId) (outcome : PollOutcome) : Prop :=
  ∃ p, n.polls.pending.get? id = some p ∧ faults.store n.requests .retire = none ∧
    ¬n.PaymentFails faults p outcome

/-- The poll is pending and can be retired, but its amount cannot be paid, and the request to
    reinstate the poll, which is the third one, is lost. -/
def Strands (n : Node) (faults : Faults) (id : TransactionId) (outcome : PollOutcome) : Prop :=
  ∃ p, n.polls.pending.get? id = some p ∧ faults.store n.requests .retire = none ∧
    n.PaymentFails faults p outcome ∧ (faults.store (n.requests + 2) .reinstate).isSome

theorem canEnd_iff (hpending : n.polls.pending.get? id = some p) :
    n.CanEnd faults id outcome ↔
      faults.store n.requests .retire = none ∧ ¬n.PaymentFails faults p outcome := by
  simp [CanEnd, hpending]

theorem strands_iff (hpending : n.polls.pending.get? id = some p) :
    n.Strands faults id outcome ↔
      faults.store n.requests .retire = none ∧ n.PaymentFails faults p outcome ∧
        (faults.store (n.requests + 2) .reinstate).isSome := by
  simp [Strands, hpending]

theorem Strands.not_canEnd (h : n.Strands faults id outcome) : ¬n.CanEnd faults id outcome := by
  obtain ⟨p, hpending, -, hfails, -⟩ := h
  rw [canEnd_iff hpending]
  exact fun hend => hend.2 hfails

/-! ### The poll is retired -/

/-- The request to retire the poll is not lost, and the store has the poll. -/
structure Retires (n : Node) (faults : Faults) (id : TransactionId) (p : Poll) : Prop where
  kept : faults.store n.requests .retire = none
  available : n.polls.isAvailable
  pending : n.polls.pending.get? id = some p

/-- The node after the first request of an attempt, which takes the poll out of the store. -/
def retired (n : Node) (id : TransactionId) (outcome : PollOutcome) : Node :=
  { n.tick with polls := n.polls.finish id outcome }

theorem retirePoll_cases {r : Except StorageError (Option Poll)}
    (h : n.retirePoll faults id outcome = (r, n')) :
    ((∀ p, ¬n.Retires faults id p) ∧ (∀ p, r ≠ .ok (some p)) ∧ n' = n.tick) ∨
      ∃ p, n.Retires faults id p ∧ r = .ok (some p) ∧ n' = n.retired id outcome := by
  rcases askStore_cases h with
    ⟨reason, hlost, rfl, rfl⟩ | ⟨hkept, ⟨e, hanswer, rfl, rfl⟩ | ⟨found, polls, hanswer, rfl, rfl⟩⟩
  · -- the request is lost
    refine .inl ⟨fun p hretires => ?_, nofun, rfl⟩
    rw [hretires.kept] at hlost
    cases hlost
  · -- the store refuses it
    refine .inl ⟨fun p hretires => ?_, nofun, rfl⟩
    have hretire : n.polls.retire id outcome = .ok (some p, n.polls.finish id outcome) :=
      PollStore.retire_eq_ok_iff.2 ⟨hretires.available, hretires.pending, rfl⟩
    rw [hanswer] at hretire
    cases hretire
  · -- the store gives an answer
    obtain ⟨havailable, hpending, rfl⟩ := PollStore.retire_eq_ok_iff.1 hanswer
    cases found with
    | none =>
      refine .inl ⟨fun p hretires => ?_, nofun, rfl⟩
      rw [hretires.pending] at hpending
      cases hpending
    | some p => exact .inr ⟨p, ⟨hkept, havailable, hpending⟩, rfl, rfl⟩

/-- An attempt finds no poll, or it goes on to release the one that it found. -/
theorem release_of_resolve {r : Except PollError Resolution}
    (h : n.resolve faults id outcome = (r, n')) :
    ((∀ p, ¬n.Retires faults id p) ∧ ∃ e k, r = .error e ∧ n' = { n with requests := k }) ∨
      ∃ p, n.Retires faults id p ∧
        (n.retired id outcome).release faults p id outcome = (r, n') := by
  unfold resolve at h
  split at h
  · next hretire =>
    -- the request to retire the poll fails
    cases h
    rcases retirePoll_cases hretire with ⟨hnone, -, rfl⟩ | ⟨p, -, hfound, -⟩
    · exact .inl ⟨hnone, _, _, rfl, rfl⟩
    · cases hfound
  · next hretire =>
    -- no poll is pending under the identifier, and one more request asks why
    split at h
    next hmissing =>
    cases h
    rcases retirePoll_cases hretire with ⟨hnone, -, rfl⟩ | ⟨p, -, hfound, -⟩
    · exact .inl ⟨hnone, _, _, rfl, of_missingPoll (n := n.tick) hmissing⟩
    · cases hfound
  · next p m hretire =>
    -- the poll is there
    rcases retirePoll_cases hretire with ⟨-, hfound, -⟩ | ⟨q, hretires, hfound, rfl⟩
    · exact absurd rfl (hfound p)
    · cases hfound
      exact .inr ⟨p, hretires, h⟩

/-! ### The amount is released -/

/-- Of a poll that was retired, the amount is paid, or the poll is to be taken back. -/
theorem release_cases {r : Except PollError Resolution}
    (h : (n.retired id outcome).release faults p id outcome = (r, n')) :
    (¬n.PaymentFails faults p outcome ∧ ∃ ledger k,
      n.ledger.pay (p.beneficiary? outcome) p.amount = .ok ledger ∧
      r = .ok ⟨id, outcome, p.beneficiary? outcome, p.amount⟩ ∧
      n' = { ledger
             polls := n.polls.finish id outcome
             journal := n.journal ++
               [.pollResolved id outcome p.tally p.quorum p.amount (p.beneficiary? outcome)]
             requests := k }) ∨
    (n.PaymentFails faults p outcome ∧ ∃ account error, p.beneficiary? outcome = some account ∧
      (faults.ledger (n.requests + 1) .credit = none →
        n.ledger.pay (some account) p.amount = .error error) ∧
      r = .error (.ledger error) ∧
      n' = ((n.retired id outcome).tick.record (.releaseFailed id account error)).takeBack
        faults p id) := by
  unfold release at h
  split at h
  · -- no account is to get anything
    next hnobody =>
    cases h
    refine .inl ⟨?_, n.ledger, _, ?_, rfl, rfl⟩
    · rintro ⟨account, haccount, -⟩
      rw [hnobody] at haccount
      cases haccount
    · rw [hnobody]
      rfl
  · next account haccount =>
    split at h
    · next hcredit =>
      cases h
      rcases credit_cases hcredit with
        ⟨reason, -, hr, -⟩ | ⟨hkept, ⟨e, -, hr, -⟩ | ⟨ledger, hpaid, -, rfl⟩⟩
      · cases hr
      · cases hr
      · -- the account gets the amount
        have hpay : n.ledger.pay (p.beneficiary? outcome) p.amount = .ok ledger := by
          rw [haccount]
          exact hpaid
        refine .inl ⟨?_, ledger, _, hpay, rfl, rfl⟩
        rintro ⟨account', haccount', hlost | hfull⟩
        · rw [show faults.ledger (n.requests + 1) .credit = none from hkept] at hlost
          cases hlost
        · have hrefused := Ledger.pay_eq_error_iff.2 ⟨account', haccount', rfl, hfull⟩
          rw [hpay] at hrefused
          cases hrefused
    · next error m hcredit =>
      cases h
      rcases credit_cases hcredit with
        ⟨reason, hlost, -, rfl⟩ | ⟨hkept, ⟨_, hrefused, hr, rfl⟩ | ⟨ledger, -, hr, -⟩⟩
      · -- the request is lost
        have hlost : faults.ledger (n.requests + 1) .credit = some reason := hlost
        refine .inr ⟨⟨account, haccount, .inl ?_⟩, account, _, haccount, ?_, rfl, rfl⟩
        · rw [hlost]
          rfl
        · intro hkept
          rw [hlost] at hkept
          cases hkept
      · -- the balance has no room
        cases hr
        have hpay : n.ledger.pay (some account) p.amount = .error error := hrefused
        obtain ⟨_, hsame, -, hfull⟩ := Ledger.pay_eq_error_iff.1 hpay
        cases hsame
        exact .inr ⟨⟨account, haccount, .inr hfull⟩, account, error, haccount, fun _ => hpay, rfl,
          rfl⟩
      · cases hr

/-- A poll is pending again, or its amount is stranded. -/
theorem takeBack_cases (n : Node) (faults : Faults) (p : Poll) (id : TransactionId) :
    (∃ polls, faults.store n.requests .reinstate = none ∧ n.polls.reinstate p = .ok polls ∧
      n.takeBack faults p id = { n.tick with polls }) ∨
    ∃ fault, ((faults.store n.requests .reinstate).isSome ∨ n.polls.reinstate p = .error fault) ∧
      n.takeBack faults p id = n.tick.record (.amountStranded id fault) := by
  unfold takeBack
  cases hback : n.reinstatePoll faults p with
  | mk r m =>
    rcases askStore_cases hback with
      ⟨reason, hlost, rfl, rfl⟩ | ⟨hkept, ⟨e, hanswer, rfl, rfl⟩ | ⟨_, polls, hanswer, rfl, rfl⟩⟩
    · exact .inr ⟨_, .inl (Option.isSome_iff_exists.2 ⟨reason, hlost⟩), rfl⟩
    · exact .inr ⟨e, .inr (of_map_eq_error hanswer), rfl⟩
    · obtain ⟨reinstated, hreinstate, hpair⟩ := of_map_eq_ok hanswer
      cases hpair
      exact .inl ⟨polls, hkept, hreinstate, rfl⟩

/-- A poll that a store has retired can be taken back, unless the request is lost. -/
theorem takeBack_of_retired {m : Node} (hs : n.polls.Sound)
    (hpending : n.polls.pending.get? p.id = some p) (hpolls : m.polls = n.polls.finish p.id outcome)
    (faults : Faults) :
    (faults.store m.requests .reinstate = none ∧
      m.takeBack faults p p.id = { m.tick with polls := n.polls }) ∨
    ∃ fault, (faults.store m.requests .reinstate).isSome ∧
      m.takeBack faults p p.id = m.tick.record (.amountStranded p.id fault) := by
  have hback : m.polls.reinstate p = .ok n.polls := by
    rw [hpolls]
    exact hs.reinstate_finish outcome hpending
  rcases takeBack_cases m faults p p.id with
    ⟨polls, hkept, hreinstate, htaken⟩ | ⟨fault, hlost | hrefused, hstranded⟩
  · obtain rfl : n.polls = polls := Except.ok.inj (hback.symm.trans hreinstate)
    exact .inl ⟨hkept, htaken⟩
  · exact .inr ⟨fault, hlost, hstranded⟩
  · rw [hback] at hrefused
    cases hrefused

/-! ### The whole attempt -/

/-- An attempt pays an amount out, or it leaves the ledger alone. -/
theorem ledger_of_resolve {r : Except PollError Resolution}
    (h : n.resolve faults id outcome = (r, n')) :
    n'.ledger = n.ledger ∨
      ∃ account? amount, n.ledger.pay account? amount = .ok n'.ledger := by
  rcases release_of_resolve h with ⟨-, e, k, -, rfl⟩ | ⟨p, -, hrelease⟩
  · -- no poll is taken out of the store
    exact .inl rfl
  · rcases release_cases hrelease with
      ⟨-, ledger, k, hpaid, -, rfl⟩ | ⟨-, account, error, -, -, -, rfl⟩
    · -- the amount is paid
      exact .inr ⟨_, _, hpaid⟩
    · -- the payment fails
      refine .inl ?_
      rcases takeBack_cases ((n.retired id outcome).tick.record (.releaseFailed id account error))
        faults p id with ⟨polls, -, -, htaken⟩ | ⟨fault, -, hstranded⟩
      · rw [htaken]
        rfl
      · rw [hstranded]
        rfl

/-- An attempt ends the poll, strands its amount, or leaves the ledger and the polls alone. -/
theorem resolve_cases (hs : n.polls.Sound) {r : Except PollError Resolution}
    (h : n.resolve faults id outcome = (r, n')) :
    (n.CanEnd faults id outcome ∧ ∃ p ledger k, p.id = id ∧
      n.polls.pending.get? p.id = some p ∧
      n.ledger.pay (p.beneficiary? outcome) p.amount = .ok ledger ∧
      r = .ok (p.resolution outcome) ∧
      n' = { ledger
             polls := n.polls.finish p.id outcome
             journal := n.journal ++ (Move.released p outcome).events
             requests := k }) ∨
    (n.Strands faults id outcome ∧ ∃ p account error fault k, p.id = id ∧
      n.polls.pending.get? p.id = some p ∧ p.beneficiary? outcome = some account ∧
      r = .error (.ledger error) ∧
      n' = { n with
             polls := n.polls.finish p.id outcome
             journal := n.journal ++ (Move.stranded p outcome account error fault).events
             requests := k }) ∨
    (¬n.CanEnd faults id outcome ∧ ¬n.Strands faults id outcome ∧ ∃ e, r = .error e ∧
      ((∃ k, n' = { n with requests := k }) ∨
        ∃ p account error k, n.polls.pending.get? p.id = some p ∧
          p.beneficiary? outcome = some account ∧
          n' = { n with
                 journal := n.journal ++ (Move.restored p account error).events
                 requests := k })) := by
  rcases release_of_resolve h with ⟨hnone, e, k, rfl, rfl⟩ | ⟨p, ⟨hkept, -, hpending⟩, hrelease⟩
  · -- no poll was taken out of the store
    have hlost : ∀ {p}, n.polls.pending.get? id = some p → faults.store n.requests .retire ≠ none :=
      fun hpending hkept => hnone _ ⟨hkept, hs.isAvailable, hpending⟩
    refine .inr (.inr ⟨?_, ?_, e, rfl, .inl ⟨k, rfl⟩⟩)
    · rintro ⟨p, hpending, hkept, -⟩
      exact hlost hpending hkept
    · rintro ⟨p, hpending, hkept, -⟩
      exact hlost hpending hkept
  · obtain rfl := hs.id_of_pending hpending
    rcases release_cases hrelease with
      ⟨hpays, ledger, k, hpaid, rfl, rfl⟩ | ⟨hfails, account, error, haccount, -, rfl, rfl⟩
    · -- the amount was paid
      exact .inl ⟨⟨p, hpending, hkept, hpays⟩, p, ledger, k, rfl, hpending, hpaid, rfl, rfl⟩
    · have hpolls : ((n.retired p.id outcome).tick.record
          (.releaseFailed p.id account error)).polls = n.polls.finish p.id outcome := rfl
      rcases takeBack_of_retired hs hpending hpolls faults with
        ⟨hback, htaken⟩ | ⟨fault, hlost, hstranded⟩
      · -- the poll is pending again
        rw [htaken]
        refine .inr (.inr ⟨?_, ?_, _, rfl, .inr ⟨p, account, error, _, hpending, haccount, rfl⟩⟩)
        · exact fun hend => ((canEnd_iff hpending).1 hend).2 hfails
        · intro hstrands
          have hlost := ((strands_iff hpending).1 hstrands).2.2
          rw [show faults.store (n.requests + 2) .reinstate = none from hback] at hlost
          cases hlost
      · -- the amount is stranded
        rw [hstranded]
        refine .inr (.inl ⟨⟨p, hpending, hkept, hfails, hlost⟩, p, account, error, fault,
          n.requests + 3, rfl, hpending, haccount, rfl, ?_⟩)
        rw [Move.events, List.append_cons]
        rfl

end Node

/-!
## The journal is only written

What a node does for a request does not depend on what it has written into its journal. Nodes that
are alike but for their journals give the same answers, and they are alike afterwards.
-/

namespace Node

/-- The nodes differ in their journals at most. -/
def Alike (n m : Node) : Prop := ∃ j, m = { n with journal := j }

variable {α : Type} {n m n' : Node}

theorem Alike.refl (n : Node) : n.Alike n := ⟨n.journal, rfl⟩

theorem Alike.symm (h : n.Alike m) : m.Alike n := by
  obtain ⟨j, rfl⟩ := h
  exact ⟨n.journal, rfl⟩

theorem Alike.trans (h : n.Alike m) (h' : m.Alike n') : n.Alike n' := by
  obtain ⟨j, rfl⟩ := h
  obtain ⟨j', rfl⟩ := h'
  exact ⟨j', rfl⟩

theorem alike_record (n : Node) (e : Event) : n.Alike (n.record e) := ⟨n.journal ++ [e], rfl⟩

theorem Alike.record (h : n.Alike m) (e e' : Event) : (n.record e).Alike (m.record e') :=
  (alike_record n e).symm.trans (h.trans (alike_record m e'))

/-- The answers are the same, and the nodes are alike after them. -/
def SameAnswer (x y : α × Node) : Prop := ∃ a n m, x = (a, n) ∧ y = (a, m) ∧ n.Alike m

theorem Alike.same (h : n.Alike m) (a : α) : SameAnswer (a, n) (a, m) := ⟨a, n, m, rfl, rfl, h⟩

theorem Alike.askLedger (h : n.Alike m) (faults : Faults) (request : LedgerRequest)
    (answer : Ledger → Except LedgerError (α × Ledger)) :
    SameAnswer (n.askLedger faults request answer) (m.askLedger faults request answer) := by
  obtain ⟨j, rfl⟩ := h
  unfold Node.askLedger
  cases faults.ledger n.requests request with
  | some reason => exact Alike.same ⟨j, rfl⟩ _
  | none =>
    dsimp only
    cases answer n.ledger with
    | error e => exact Alike.same ⟨j, rfl⟩ _
    | ok result => exact Alike.same ⟨j, rfl⟩ _

theorem Alike.askStore (h : n.Alike m) (faults : Faults) (request : StoreRequest)
    (answer : PollStore → Except StorageError (α × PollStore)) :
    SameAnswer (n.askStore faults request answer) (m.askStore faults request answer) := by
  obtain ⟨j, rfl⟩ := h
  unfold Node.askStore
  cases faults.store n.requests request with
  | some reason => exact Alike.same ⟨j, rfl⟩ _
  | none =>
    dsimp only
    cases answer n.polls with
    | error e => exact Alike.same ⟨j, rfl⟩ _
    | ok result => exact Alike.same ⟨j, rfl⟩ _

/-! ### Resolving a poll -/

theorem Alike.missingPoll (h : n.Alike m) (faults : Faults) (id : TransactionId) :
    SameAnswer (n.missingPoll faults id) (m.missingPoll faults id) := by
  obtain ⟨r, n₁, m₁, hn, hm, hafter⟩ :=
    h.askStore faults .outcome fun s => (s.outcome? id).map (·, s)
  unfold Node.missingPoll pollOutcome
  rw [hn, hm]
  rcases r with e | found | outcome
  · exact hafter.same _
  · exact hafter.same _
  · exact hafter.same _

theorem Alike.takeBack (h : n.Alike m) (faults : Faults) (p : Poll) (id : TransactionId) :
    (n.takeBack faults p id).Alike (m.takeBack faults p id) := by
  obtain ⟨r, n₁, m₁, hn, hm, hafter⟩ :=
    h.askStore faults .reinstate fun s => (s.reinstate p).map ((), ·)
  unfold Node.takeBack reinstatePoll
  rw [hn, hm]
  cases r with
  | ok => exact hafter
  | error e => exact hafter.record _ _

theorem Alike.release (h : n.Alike m) (faults : Faults) (p : Poll) (id : TransactionId)
    (outcome : PollOutcome) :
    SameAnswer (n.release faults p id outcome) (m.release faults p id outcome) := by
  unfold Node.release
  cases p.beneficiary? outcome with
  | none => exact (h.record _ _).same _
  | some account =>
    obtain ⟨r, n₁, m₁, hn, hm, hafter⟩ :=
      h.askLedger faults .credit fun l => (l.credit account p.amount).map ((), ·)
    dsimp only [credit]
    rw [hn, hm]
    cases r with
    | ok => exact (hafter.record _ _).same _
    | error e => exact ((hafter.record _ _).takeBack faults p id).same _

theorem Alike.resolve (h : n.Alike m) (faults : Faults) (id : TransactionId)
    (outcome : PollOutcome) :
    SameAnswer (n.resolve faults id outcome) (m.resolve faults id outcome) := by
  obtain ⟨r, n₁, m₁, hn, hm, hafter⟩ := h.askStore faults .retire fun s => s.retire id outcome
  unfold Node.resolve retirePoll
  rw [hn, hm]
  rcases r with e | found | p
  · exact hafter.same _
  · obtain ⟨e, n₂, m₂, hn', hm', hafter'⟩ := hafter.missingPoll faults id
    dsimp only
    rw [hn', hm']
    exact hafter'.same _
  · exact hafter.release faults p id outcome

end Node

end LedgerAppendix
