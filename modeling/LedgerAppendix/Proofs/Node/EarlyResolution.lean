import LedgerAppendix.Proofs.Node.Escrow
import LedgerAppendix.Proofs.Node.Settlement
import LedgerAppendix.Proofs.Node.Undisturbed

/-!
# Early resolution changes no result

Two nodes get the same calls. The first one resolves a poll as soon as it has its quorum, and the
second one waits for the last height. The calls leave the polls of the first one ahead of those of
the second one (`PollStore.Ahead`): votes are only added to a poll, so a quorum stays reached.

A vote must not depend on what was paid before, so no poll may weigh votes by balances; and a credit
that is refused would leave a poll pending in one of the two nodes only. The balances agree in the
end because both nodes opened the same polls and these ended in the same way, whenever it was.
-/

namespace LedgerAppendix

/-!
## Stores of which one is ahead

Two stores see the same changes, of which the first one resolves a poll as soon as it has its quorum
and the second one waits for the last height. They are never far apart: of an identifier both say
the same, or the first store has approved a poll that is still pending with its quorum in the second
one. What becomes of such a poll is settled, so the second store catches up at its last height.
-/

namespace PollStore

/-- Of an identifier, two stores say the same, or the first one has approved a poll that has its
    quorum and is pending in the second one. -/
inductive AheadAt (s t : PollStore) (id : TransactionId) : Prop
  | same (hpending : s.pending.get? id = t.pending.get? id)
    (houtcome : s.outcomes.get? id = t.outcomes.get? id) : AheadAt s t id
  | approved {p : Poll} (hended : s.outcomes.get? id = some .approved)
    (hpending : t.pending.get? id = some p) (hquorum : p.quorum ≤ p.tally) : AheadAt s t id

/-- No pending poll weighs votes by balances. -/
def Steady (s : PollStore) : Prop := ∀ id p, s.pending.get? id = some p → p.model ≠ .balance

/-- The first store is ahead of the second one, if at all. -/
structure Ahead (s t : PollStore) : Prop where
  sound : s.Sound
  sound_late : t.Sound
  of_id : ∀ id, AheadAt s t id
  steady : t.Steady

variable {s t s' t' : PollStore}

theorem Steady.put (h : s.Steady) {p : Poll} (hmodel : p.model ≠ .balance) : (s.put p).Steady := by
  intro id q hq
  rw [pending_put] at hq
  split at hq
  · cases hq
    exact hmodel
  · exact h id q hq

/-- What is said of an identifier is told by the look-ups. -/
theorem AheadAt.congr {id : TransactionId} (h : AheadAt s t id)
    (hs : s'.pending.get? id = s.pending.get? id ∧ s'.outcomes.get? id = s.outcomes.get? id)
    (ht : t'.pending.get? id = t.pending.get? id ∧ t'.outcomes.get? id = t.outcomes.get? id) :
    AheadAt s' t' id := by
  obtain ⟨hpending, houtcome⟩ := hs
  obtain ⟨hpending', houtcome'⟩ := ht
  cases h with
  | same hpendings houtcomes =>
    exact .same (hpending.trans (hpendings.trans hpending'.symm))
      (houtcome.trans (houtcomes.trans houtcome'.symm))
  | approved hended hp hquorum =>
    exact .approved (houtcome.trans hended) (hpending'.trans hp) hquorum

theorem ahead_empty : empty.Ahead empty := by
  constructor
  case sound => exact sound_empty
  case sound_late => exact sound_empty
  case of_id => exact fun _ => .same rfl rfl
  case steady =>
    intro id p h
    cases h

/-- Both stores know the same identifiers. -/
theorem Ahead.new_iff (h : s.Ahead t) (id : TransactionId) :
    (s.pending.get? id = none ∧ s.outcomes.get? id = none) ↔
      (t.pending.get? id = none ∧ t.outcomes.get? id = none) := by
  cases h.of_id id with
  | same hpending houtcome => rw [hpending, houtcome]
  | approved hended hpending => simp [hended, hpending]

/-- What is still pending in the first store is so in the second one. -/
theorem Ahead.pending (h : s.Ahead t) {id : TransactionId} {p : Poll}
    (hp : s.pending.get? id = some p) : t.pending.get? id = some p := by
  cases h.of_id id with
  | same hpending => exact hpending.symm.trans hp
  | approved hended =>
    rw [h.sound.not_ended hp] at hended
    cases hended

theorem Ahead.outcome_eq (h : s.Ahead t) {id : TransactionId} {outcome outcome' : PollOutcome}
    (hs : s.outcomes.get? id = some outcome) (ht : t.outcomes.get? id = some outcome') :
    outcome = outcome' := by
  cases h.of_id id with
  | same _ houtcome => exact Option.some.inj (hs.symm.trans (houtcome.trans ht))
  | approved _ hpending =>
    rw [h.sound_late.not_ended hpending] at ht
    cases ht

/-! ### The changes of both stores -/

/-- Both stores file the same poll, which has not ended in either. -/
theorem Ahead.put (h : s.Ahead t) {p : Poll} (hs : s.outcomes.get? p.id = none)
    (ht : t.outcomes.get? p.id = none) (hmodel : p.model ≠ .balance) :
    (s.put p).Ahead (t.put p) := by
  constructor
  case sound => exact h.sound.put hs
  case sound_late => exact h.sound_late.put ht
  case of_id =>
    intro id
    by_cases hid : p.id = id
    · subst hid
      exact .same ((s.put_self p).trans (t.put_self p).symm) (hs.trans ht.symm)
    · exact (h.of_id id).congr (s.put_of_ne hid) (t.put_of_ne hid)
  case steady => exact h.steady.put hmodel

/-- The second store gets a vote on a poll that has been approved in the first one. -/
theorem Ahead.put_late (h : s.Ahead t) {p : Poll} (hs : s.outcomes.get? p.id = some .approved)
    (ht : t.outcomes.get? p.id = none) (hquorum : p.quorum ≤ p.tally)
    (hmodel : p.model ≠ .balance) : s.Ahead (t.put p) := by
  constructor
  case sound => exact h.sound
  case sound_late => exact h.sound_late.put ht
  case of_id =>
    intro id
    by_cases hid : p.id = id
    · subst hid
      exact .approved hs (t.put_self p) hquorum
    · exact (h.of_id id).congr ⟨rfl, rfl⟩ (t.put_of_ne hid)
  case steady => exact h.steady.put hmodel

/-- Both stores end what is due there at a height. -/
theorem Ahead.endDue (h : s.Ahead t) (height : UInt32) :
    (s.endDue true height).Ahead (t.endDue false height) := by
  constructor
  case sound => exact h.sound.endDue true height
  case sound_late => exact h.sound_late.endDue false height
  case of_id =>
    intro id
    cases h.of_id id with
    | same hpending houtcome =>
      cases hlate : t.pending.get? id with
      | none =>
        obtain ⟨hs, hs'⟩ := h.sound.endDue_of_not_pending (hpending.trans hlate) true height
        obtain ⟨ht, ht'⟩ := h.sound_late.endDue_of_not_pending hlate false height
        exact .same (hs.trans ht.symm) (hs'.trans (houtcome.trans ht'.symm))
      | some p =>
        obtain rfl := h.sound_late.id_of_pending hlate
        have hearly : s.pending.get? p.id = some p := hpending.trans hlate
        by_cases hend : p.EndsAt false height
        · -- both stores end the poll
          obtain ⟨hs, hs'⟩ := h.sound.endDue_of_endsAt hearly hend.early_of_late
          obtain ⟨ht, ht'⟩ := h.sound_late.endDue_of_endsAt hlate hend
          exact .same (hs.trans ht.symm) (hs'.trans ht'.symm)
        · obtain ⟨ht, ht'⟩ := h.sound_late.endDue_of_not_endsAt hlate hend
          by_cases hquorum : p.quorum ≤ p.tally
          · -- only the first store ends the poll: this is where it gets ahead
            obtain ⟨-, hs'⟩ := h.sound.endDue_of_endsAt hearly (.inr ⟨rfl, hquorum⟩)
            rw [Poll.verdict_of_quorum hquorum] at hs'
            exact .approved hs' ht hquorum
          · -- neither store ends the poll
            have hnot : ¬p.EndsAt true height := fun hearly => hend (hearly.late_of_early hquorum)
            obtain ⟨hs, hs'⟩ := h.sound.endDue_of_not_endsAt hearly hnot
            exact .same (hs.trans ht.symm) (hs'.trans ht'.symm)
    | @approved p hended hpending hquorum =>
      obtain rfl := h.sound_late.id_of_pending hpending
      obtain ⟨hs, hs'⟩ :=
        h.sound.endDue_of_not_pending (h.sound.not_pending hended) true height
      by_cases hend : p.EndsAt false height
      · -- the second store catches up
        obtain ⟨ht, ht'⟩ := h.sound_late.endDue_of_endsAt hpending hend
        rw [Poll.verdict_of_quorum hquorum] at ht'
        exact .same (hs.trans ht.symm) (hs'.trans (hended.trans ht'.symm))
      · -- the first store stays ahead
        obtain ⟨ht, -⟩ := h.sound_late.endDue_of_not_endsAt hpending hend
        exact .approved (hs'.trans hended) ht hquorum
  case steady =>
    intro id p hp
    exact h.steady id p (h.sound_late.pending_endDue_iff.1 hp).1

/-- Where nothing is pending in the second store, both are the same. -/
theorem Ahead.eq_of_none_pending (h : s.Ahead t) (hnone : ∀ id, t.pending.get? id = none) :
    s = t := by
  have hsame : ∀ id, s.pending.get? id = t.pending.get? id ∧
      s.outcomes.get? id = t.outcomes.get? id := by
    intro id
    cases h.of_id id with
    | same hpending houtcome => exact ⟨hpending, houtcome⟩
    | approved _ hpending =>
      rw [hnone] at hpending
      cases hpending
  exact h.sound.eq_of_get? h.sound_late (fun id => (hsame id).1) fun id => (hsame id).2

end PollStore

/-! ## Two nodes -/

namespace Node

variable {n m n' m' : Node}

/-- Votes on polls that both nodes have weigh the same, and a poll that the first node has approved
    keeps its quorum with them. -/
theorem vote_ahead (h : n.polls.Ahead m.polls) (hassets : n.ledger.SameHoldings m.ledger)
    (id : TransactionId) (voter : AccountId) (height : UInt32) :
    (n.vote .none id voter height).2.polls.Ahead (m.vote .none id voter height).2.polls := by
  cases h.of_id id with
  | same hpending houtcome =>
    cases hlate : m.polls.pending.get? id with
    | none =>
      rw [polls_vote_of_missing h.sound (hpending.trans hlate),
        polls_vote_of_missing h.sound_late hlate]
      exact h
    | some p =>
      obtain rfl := h.sound_late.id_of_pending hlate
      have hearly : n.polls.pending.get? p.id = some p := hpending.trans hlate
      have hmodel := h.steady p.id p hlate
      rw [polls_vote_of_pending h.sound hearly, polls_vote_of_pending h.sound_late hlate,
        Poll.voted?_congr hmodel hassets]
      cases hvoted : p.voted? m.ledger voter height with
      | none => exact h
      | some q =>
        obtain ⟨weight, -, rfl⟩ := Poll.of_voted? hvoted
        exact h.put (h.sound.not_ended hearly) (h.sound_late.not_ended hlate) hmodel
  | @approved p hended hpending hquorum =>
    obtain rfl := h.sound_late.id_of_pending hpending
    rw [polls_vote_of_missing h.sound (h.sound.not_pending hended),
      polls_vote_of_pending h.sound_late hpending]
    cases hvoted : p.voted? m.ledger voter height with
    | none => exact h
    | some q =>
      obtain ⟨weight, hnew, rfl⟩ := Poll.of_voted? hvoted
      have hmodel := h.steady p.id p hpending
      exact h.put_late hended (h.sound_late.not_ended hpending)
        (Poll.quorum_le_tally_vote weight hnew hquorum) hmodel

/-- A phasing opens its poll in both nodes or in neither. -/
theorem applyPhasing_ahead (h : n.polls.Ahead m.polls) {tx : Transaction} {p : Phasing}
    {effect effect' : Effect} (hn : n.applyPhasing .none tx p = (effect, n'))
    (hm : m.applyPhasing .none tx p = (effect', m'))
    (hmodel : effect = .pollOpened tx.id → p.weighting.model ≠ .balance) :
    n'.polls.Ahead m'.polls ∧ effect' = effect := by
  by_cases hnew : n.polls.pending.get? tx.id = none ∧ n.polls.outcomes.get? tx.id = none
  · have hnew' := (h.new_iff tx.id).1 hnew
    obtain ⟨heffect, hpolls⟩ := applyPhasing_of_new h.sound (p := p) hnew.1 hnew.2
    obtain ⟨heffect', hpolls'⟩ := applyPhasing_of_new h.sound_late (p := p) hnew'.1 hnew'.2
    rw [hn] at heffect hpolls
    rw [hm] at heffect' hpolls'
    refine ⟨?_, heffect'.trans heffect.symm⟩
    rw [hpolls, hpolls']
    exact h.put hnew.2 hnew'.2 (hmodel heffect)
  · obtain ⟨heffect, hpolls⟩ := applyPhasing_of_known (p := p) hnew
    obtain ⟨heffect', hpolls'⟩ := applyPhasing_of_known (p := p) (mt (h.new_iff tx.id).2 hnew)
    rw [hn] at heffect hpolls
    rw [hm] at heffect' hpolls'
    refine ⟨?_, heffect'.trans heffect.symm⟩
    rw [hpolls, hpolls']
    exact h

/-- Both nodes open the same polls. -/
theorem applyAppendix_ahead (h : n.polls.Ahead m.polls) {tx : Transaction} {a : Appendix}
    {effect effect' : Effect} (hn : n.applyAppendix .none tx a = (effect, n'))
    (hm : m.applyAppendix .none tx a = (effect', m'))
    (hsteady : ∀ o, opening? tx (a, effect) = some o → o.phasing.weighting.model ≠ .balance) :
    n'.polls.Ahead m'.polls ∧ opening? tx (a, effect') = opening? tx (a, effect) := by
  cases a with
  | message | encryptedMessage | encryptToSelf =>
    cases hn
    cases hm
    exact ⟨h, rfl⟩
  | announcement a =>
    have hpolls := polls_applyAnnouncement n .none tx a
    have hpolls' := polls_applyAnnouncement m .none tx a
    have hearly : n.applyAnnouncement .none tx a = (effect, n') := hn
    have hlate : m.applyAnnouncement .none tx a = (effect', m') := hm
    rw [hearly] at hpolls
    rw [hlate] at hpolls'
    refine ⟨?_, rfl⟩
    rw [hpolls, hpolls']
    exact h
  | phasing p =>
    obtain ⟨hpolls, rfl⟩ := applyPhasing_ahead h hn hm
      fun heffect => hsteady ⟨tx, p⟩ (if_pos heffect)
    exact ⟨hpolls, rfl⟩

theorem applyEach_ahead {tx : Transaction} {as : List Appendix} {es es' : List Effect}
    (h : n.polls.Ahead m.polls) (hn : n.applyEach .none tx as = (es, n'))
    (hm : m.applyEach .none tx as = (es', m'))
    (hsteady : ∀ o ∈ (as.zip es).filterMap (opening? tx),
      o.phasing.weighting.model ≠ .balance) :
    n'.polls.Ahead m'.polls ∧
      (as.zip es').filterMap (opening? tx) = (as.zip es).filterMap (opening? tx) := by
  induction as generalizing n m es es' with
  | nil =>
    cases hn
    cases hm
    exact ⟨h, rfl⟩
  | cons a as ih =>
    obtain ⟨effect, n₁, rest, hearly, hrest, rfl⟩ := of_applyEach_cons hn
    obtain ⟨effect', m₁, rest', hlate, hrest', rfl⟩ := of_applyEach_cons hm
    rw [List.zip_cons_cons, filterMap_cons_toList, List.forall_mem_append] at hsteady
    obtain ⟨hfirst, hsteady⟩ := hsteady
    obtain ⟨h₁, hopening⟩ := applyAppendix_ahead h hearly hlate
      fun o ho => hfirst o (Option.mem_toList.2 ho)
    obtain ⟨hlast, hopenings⟩ := ih h₁ hrest hrest' hsteady
    refine ⟨hlast, ?_⟩
    rw [List.zip_cons_cons, List.zip_cons_cons, filterMap_cons_toList, filterMap_cons_toList,
      hopening, hopenings]

/-- A call that does not end polls at will leaves the first node ahead and opens the same polls in
    both, if no credit is refused. -/
theorem perform_ahead {limits : Limits} {call : Call} {reply reply' : Reply}
    (h : n.polls.Ahead m.polls) (hassets : n.ledger.SameHoldings m.ledger)
    (hcall : call.isManual = false) (hn : n.perform .none ⟨limits, true⟩ call = (reply, n'))
    (hm : m.perform .none ⟨limits, false⟩ call = (reply', m'))
    (hsteady : ∀ o ∈ call.openings reply, o.phasing.weighting.model ≠ .balance)
    (hpaid : reply.refusals = []) (hpaid' : reply'.refusals = []) :
    n'.polls.Ahead m'.polls ∧ call.openings reply' = call.openings reply := by
  have hsame : n'.polls = n.polls → m'.polls = m.polls → n'.polls.Ahead m'.polls := by
    intro hearly hlate
    rw [hearly, hlate]
    exact h
  cases call with
  | parseBytes flags data version =>
    cases hn
    cases hm
    exact ⟨hsame (parseBytes_leaves ..).2 (parseBytes_leaves ..).2, rfl⟩
  | parseObject o =>
    cases hn
    cases hm
    exact ⟨hsame (parseObject_leaves ..).2 (parseObject_leaves ..).2, rfl⟩
  | validate tx s =>
    cases hn
    cases hm
    exact ⟨hsame (validate_leaves ..).2 (validate_leaves ..).2, rfl⟩
  | status id =>
    cases hn
    cases hm
    exact ⟨hsame (status_leaves ..).2 (status_leaves ..).2, rfl⟩
  | apply tx s =>
    cases hn
    cases hm
    exact applyEach_ahead h (Prod.eta (n.applyEach .none tx s.toList)).symm
      (Prod.eta (m.applyEach .none tx s.toList)).symm hsteady
  | vote id voter height =>
    cases hn
    cases hm
    exact ⟨vote_ahead h hassets id voter height, rfl⟩
  | commit id => cases hcall
  | rollback id => cases hcall
  | resolveDue height =>
    rw [polls_resolveDue_of_paid h.sound hn hpaid, polls_resolveDue_of_paid h.sound_late hm hpaid']
    exact ⟨h.endDue height, rfl⟩

/-! ### Runs -/

theorem run_ahead {limits : Limits} {calls : List Call} {replies replies' : List Reply}
    (h : n.polls.Ahead m.polls) (hassets : n.ledger.SameHoldings m.ledger)
    (hcalls : ∀ call ∈ calls, call.isManual = false)
    (hn : n.run .none (calls.map (⟨limits, true⟩, ·)) = (replies, n'))
    (hm : m.run .none (calls.map (⟨limits, false⟩, ·)) = (replies', m'))
    (hsteady : ∀ o ∈ openings (calls.map (⟨limits, true⟩, ·)) replies,
      o.phasing.weighting.model ≠ .balance)
    (hpaid : replies.flatMap Reply.refusals = []) (hpaid' : replies'.flatMap Reply.refusals = []) :
    n'.polls.Ahead m'.polls ∧
      openings (calls.map (⟨limits, false⟩, ·)) replies' =
        openings (calls.map (⟨limits, true⟩, ·)) replies := by
  induction calls generalizing n m replies replies' with
  | nil =>
    cases hn
    cases hm
    exact ⟨h, rfl⟩
  | cons call calls ih =>
    obtain ⟨reply, n₁, rest, hearly, hrest, rfl⟩ := of_run_cons hn
    obtain ⟨reply', m₁, rest', hlate, hrest', rfl⟩ := of_run_cons hm
    obtain ⟨hcall, hcalls⟩ := List.forall_mem_cons.1 hcalls
    obtain ⟨hfirst, hsteady⟩ := List.forall_mem_append.1 hsteady
    obtain ⟨hpaid, hpaidRest⟩ := List.append_eq_nil_iff.1 hpaid
    obtain ⟨hpaid', hpaidRest'⟩ := List.append_eq_nil_iff.1 hpaid'
    obtain ⟨h₁, hopening⟩ := perform_ahead h hassets hcall hearly hlate hfirst hpaid hpaid'
    obtain ⟨ms, hmoves, -⟩ := perform_moves h.sound hearly
    obtain ⟨ms', hmoves', -⟩ := perform_moves h.sound_late hlate
    have hassets₁ : n₁.ledger.SameHoldings m₁.ledger := by
      intro a asset
      rw [hmoves.assetBalance, hmoves'.assetBalance, hassets a asset]
    obtain ⟨hlast, hopenings⟩ := ih h₁ hassets₁ hcalls hrest hrest' hsteady hpaidRest hpaidRest'
    refine ⟨hlast, ?_⟩
    show call.openings reply' ++ openings _ rest' = call.openings reply ++ openings _ rest
    rw [hopening, hopenings]

/-- Where a run of calls and a height after it opened the same polls in two nodes and left the same
    outcomes, every balance is the same. -/
theorem balance_eq_of_openings_eq {ledger : Ledger} {calls calls' : List (Config × Call)}
    {replies replies' : List Reply} (hn : (ofLedger ledger).run .none calls = (replies, n))
    (hm : (ofLedger ledger).run .none calls' = (replies', m))
    (hopenings : openings calls' replies' = openings calls replies) {config config' : Config}
    {height : UInt32} {reply reply' : Reply}
    (hlast : n.perform .none config (.resolveDue height) = (reply, n'))
    (hlast' : m.perform .none config' (.resolveDue height) = (reply', m'))
    (houtcomes : m'.polls.outcomes = n'.polls.outcomes) (a : AccountId) :
    n'.ledger.balance a = m'.ledger.balance a := by
  have hkept : ∀ k, Faults.none.store k .reinstate = none := fun _ => rfl
  obtain ⟨ms, hmoves, -, hopened⟩ := run_moves PollStore.sound_empty hn
  obtain ⟨ms', hmoves', -, hopened'⟩ := run_moves PollStore.sound_empty hm
  obtain ⟨us, hend, -, hnothing, -⟩ := perform_moves (hmoves.sound PollStore.sound_empty) hlast
  obtain ⟨us', hend', -, hnothing', -⟩ := perform_moves (hmoves'.sound PollStore.sound_empty) hlast'
  have hall : (ms ++ us).filterMap Move.opening? = openings calls replies := by
    rw [List.filterMap_append, ← hnothing, ← hopened]
    exact List.append_nil _
  have hall' : (ms' ++ us').filterMap Move.opening? = openings calls' replies' := by
    rw [List.filterMap_append, ← hnothing', ← hopened']
    exact List.append_nil _
  have hresolution : m'.polls.resolution? = n'.polls.resolution? := by
    funext o
    rw [PollStore.resolution?, houtcomes, PollStore.resolution?]
  apply UInt64.toNat_inj.1
  rw [(hmoves.append hend).balance_of_openings hkept,
    (hmoves'.append hend').balance_of_openings hkept, hall, hall', hopenings, hresolution]

/-- Two nodes with equal ledgers and no polls get the same calls, none of which ends a poll at will,
    and no request is lost. One of them resolves polls early, and the other does not. If no poll
    weighs votes by balances and no credit is refused, no outcome of the one differs from that of
    the other, and what is pending in the first one is pending in the other one with the same votes.
    A height at which all pending polls are at their last leaves neither of them with a pending
    poll, and both with the same outcomes and the same balances. -/
theorem run_early_agrees {ledger : Ledger} {limits : Limits} {calls : List Call}
    {early late : List Reply} {n m : Node} (hcalls : ∀ call ∈ calls, call.isManual = false)
    (hn : (ofLedger ledger).run .none (calls.map (⟨limits, true⟩, ·)) = (early, n))
    (hm : (ofLedger ledger).run .none (calls.map (⟨limits, false⟩, ·)) = (late, m))
    (hsteady : ∀ o ∈ openings (calls.map (⟨limits, true⟩, ·)) early,
      o.phasing.weighting.model ≠ .balance)
    (hpaid : early.flatMap Reply.refusals = []) (hpaid' : late.flatMap Reply.refusals = []) :
    (∀ id outcome outcome', n.polls.outcomes.get? id = some outcome →
      m.polls.outcomes.get? id = some outcome' → outcome = outcome') ∧
    (∀ id p, n.polls.pending.get? id = some p → m.polls.pending.get? id = some p) ∧
    ∀ height, (∀ id p, m.polls.pending.get? id = some p → p.maxHeight ≤ height) →
      ∀ reply reply' n' m',
        n.perform .none ⟨limits, true⟩ (.resolveDue height) = (reply, n') →
        m.perform .none ⟨limits, false⟩ (.resolveDue height) = (reply', m') →
        reply.refusals = [] → reply'.refusals = [] →
        n'.polls.pending = .empty ∧ m'.polls.pending = .empty ∧
        n'.polls.outcomes = m'.polls.outcomes ∧
        ∀ a, n'.ledger.balance a = m'.ledger.balance a := by
  obtain ⟨hahead, hopenings⟩ :=
    run_ahead PollStore.ahead_empty (fun _ _ => rfl) hcalls hn hm hsteady hpaid hpaid'
  refine ⟨fun _ _ _ => hahead.outcome_eq, fun _ _ => hahead.pending, ?_⟩
  intro height hlast reply reply' n' m' hearly hlate hpaid hpaid'
  have hpolls := polls_resolveDue_of_paid hahead.sound hearly hpaid
  have hpolls' := polls_resolveDue_of_paid hahead.sound_late hlate hpaid'
  have hnone : ∀ id, (m.polls.endDue false height).pending.get? id = none := by
    intro id
    rw [Option.eq_none_iff_forall_ne_some]
    intro p hp
    obtain ⟨hpending, hnot⟩ := hahead.sound_late.pending_endDue_iff.1 hp
    exact hnot (.inl (hlast id p hpending))
  have hsame : n'.polls = m'.polls := by
    rw [hpolls, hpolls']
    exact (hahead.endDue height).eq_of_none_pending hnone
  have hempty : m'.polls.pending = .empty := by
    rw [hpolls']
    exact Table.ext_get? hnone
  refine ⟨by rw [hsame, hempty], hempty, by rw [hsame], ?_⟩
  exact balance_eq_of_openings_eq hn hm hopenings hearly hlate (by rw [hsame])

/-! ### Two runs -/

/-- A payment gets its vote, and another one after a height before the last. -/
def votedTwice : List Call :=
  [phasedPayment 7 1 (some 2) 10, .vote 7 3 150, .resolveDue 160, .vote 7 4 170]

def earlyRun : List Reply × Node :=
  (ofLedger .empty).run .none (votedTwice.map (⟨.standard, true⟩, ·))

def lateRun : List Reply × Node :=
  (ofLedger .empty).run .none (votedTwice.map (⟨.standard, false⟩, ·))

/-- One node has made the payment before the other one takes the second vote, and the last height
    leaves them the same balances. -/
theorem run_early_agrees_votedTwice :
    earlyRun.2.polls.outcomes.get? 7 = some .approved ∧
      lateRun.2.polls.outcomes.get? 7 = none ∧
      ∀ a, (earlyRun.2.perform .none ⟨.standard, true⟩ (.resolveDue 200)).2.ledger.balance a =
        (lateRun.2.perform .none ⟨.standard, false⟩ (.resolveDue 200)).2.ledger.balance a := by
  have hcalls : ∀ call ∈ votedTwice, call.isManual = false := by decide
  have hsteady : ∀ o ∈ openings (votedTwice.map (⟨.standard, true⟩, ·)) earlyRun.1,
      o.phasing.weighting.model ≠ .balance := by decide +kernel
  obtain ⟨-, -, hagree⟩ := run_early_agrees (n := earlyRun.2) (m := lateRun.2) hcalls
    (Prod.eta _).symm (Prod.eta _).symm hsteady rfl rfl
  have hlast : ∀ id p, lateRun.2.polls.pending.get? id = some p → p.maxHeight ≤ 200 := by
    have hentries : ∀ entry ∈ lateRun.2.polls.pending.entries, entry.2.maxHeight ≤ 200 := by
      decide +kernel
    exact fun id p hp => hentries (id, p) (Table.mem_entries_iff.2 hp)
  obtain ⟨-, -, -, hbalance⟩ :=
    hagree 200 hlast _ _ _ _ (Prod.eta _).symm (Prod.eta _).symm rfl rfl
  exact ⟨by decide +kernel, by decide +kernel, hbalance⟩

end Node

end LedgerAppendix
