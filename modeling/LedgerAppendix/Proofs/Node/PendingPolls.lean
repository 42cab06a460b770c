import LedgerAppendix.Proofs.Node.Quorum
import LedgerAppendix.Proofs.Node.Run
import Mathlib.Data.List.Nodup

/-!
# Polls in the course of a run

From the opening of a poll to its end: where a poll is after any run, and what it keeps on the way.
-/

namespace LedgerAppendix

/-!
## Which polls a store has

The polls that a store has are those that were opened. Each opening is either pending, and then its
terms are what they were in the beginning, or has ended; nothing is lost and nothing else gets in.
Votes change a pending poll in its votes only, and where a poll ends, its identifier stays in the
store for good, so no identifier is opened twice.
-/

/-- The polls of a store are those that some openings opened, each under its own identifier. -/
structure PollStore.Registers (s : PollStore) (os : List Opening) : Prop where
  nodup : (os.map (·.tx.id)).Nodup
  of_pending : ∀ {id p}, s.pending.get? id = some p →
    ∃ o ∈ os, o.tx.id = id ∧ ∃ votes, p = { o.poll with votes }
  of_ended : ∀ {id outcome}, s.outcomes.get? id = some outcome → ∃ o ∈ os, o.tx.id = id
  kept : ∀ {o}, o ∈ os →
    s.pending.get? o.tx.id ≠ none ∨ s.outcomes.get? o.tx.id ≠ none

namespace PollStore

variable {s : PollStore} {os : List Opening}

theorem registers_empty : empty.Registers [] := by
  constructor
  case nodup => exact List.nodup_nil
  case of_pending =>
    intro id p h
    cases h
  case of_ended =>
    intro id outcome h
    cases h
  case kept =>
    intro o ho
    cases ho

/-- There is only one opening for an identifier. -/
theorem Registers.eq_of_id (h : s.Registers os) {o o' : Opening} (ho : o ∈ os) (ho' : o' ∈ os)
    (hid : o.tx.id = o'.tx.id) : o = o' :=
  List.inj_on_of_nodup_map h.nodup ho ho' hid

/-! ### The changes of a store -/

/-- A poll is opened. -/
theorem Registers.put_new (h : s.Registers os) {o : Opening}
    (hpending : s.pending.get? o.tx.id = none) (hended : s.outcomes.get? o.tx.id = none) :
    (s.put o.poll).Registers (os ++ [o]) := by
  have hnew : o.tx.id ∉ os.map (·.tx.id) := by
    intro hmem
    obtain ⟨o', ho', hid⟩ := List.mem_map.1 hmem
    rcases h.kept ho' with hkept | hkept
    · exact hkept (hid ▸ hpending)
    · exact hkept (hid ▸ hended)
  constructor
  case nodup =>
    rw [List.map_append, List.nodup_append]
    refine ⟨h.nodup, List.nodup_singleton _, ?_⟩
    intro i hi j hj hij
    rw [List.map_singleton, List.mem_singleton] at hj
    exact hnew (hj ▸ hij ▸ hi)
  case of_pending =>
    intro id p hp
    rw [pending_put] at hp
    split at hp
    · next hid =>
      -- the poll that is opened
      cases hp
      exact ⟨o, List.mem_append_right _ List.mem_cons_self, hid, o.poll.votes, rfl⟩
    · -- a poll that was pending before
      obtain ⟨o', ho', hpoll⟩ := h.of_pending hp
      exact ⟨o', List.mem_append_left _ ho', hpoll⟩
  case of_ended =>
    intro id outcome hp
    obtain ⟨o', ho', hid⟩ := h.of_ended hp
    exact ⟨o', List.mem_append_left _ ho', hid⟩
  case kept =>
    intro o' ho'
    rw [pending_put]
    split
    · exact .inl (Option.some_ne_none _)
    · next hid =>
      rcases List.mem_append.1 ho' with ho' | ho'
      · exact h.kept ho'
      · exact absurd (congrArg (·.tx.id) (List.mem_singleton.1 ho').symm) hid

/-- A pending poll gets other votes. -/
theorem Registers.put_votes (h : s.Registers os) {p : Poll} (votes : Table UInt64)
    (hpending : s.pending.get? p.id = some p) : (s.put { p with votes }).Registers os := by
  constructor
  case nodup => exact h.nodup
  case of_pending =>
    intro id q hq
    rw [pending_put] at hq
    split at hq
    · next hid =>
      -- the poll is still the one that its opening opened, but for the votes
      obtain ⟨o, ho, hoid, old, hp⟩ := h.of_pending hpending
      cases hq
      exact ⟨o, ho, hoid.trans hid, votes, by rw [hp]⟩
    · -- any other poll
      exact h.of_pending hq
  case of_ended => exact h.of_ended
  case kept =>
    intro o ho
    rw [pending_put]
    split
    · exact .inl (Option.some_ne_none _)
    · exact h.kept ho

/-- A pending poll ends. -/
theorem Registers.finish (h : s.Registers os) {p : Poll} (outcome : PollOutcome)
    (hpending : s.pending.get? p.id = some p) : (s.finish p.id outcome).Registers os := by
  constructor
  case nodup => exact h.nodup
  case of_pending =>
    intro id q hq
    rw [pending_finish] at hq
    split at hq
    · cases hq
    · exact h.of_pending hq
  case of_ended =>
    intro id o ho
    rw [outcomes_finish] at ho
    split at ho
    · next hid =>
      -- the poll that ends was opened, as it was pending
      obtain ⟨opening, hopening, hoid, -⟩ := h.of_pending hpending
      exact ⟨opening, hopening, hoid.trans hid⟩
    · -- any other poll
      exact h.of_ended ho
  case kept =>
    intro o ho
    rw [pending_finish, outcomes_finish]
    split
    · exact .inr (Option.some_ne_none _)
    · exact h.kept ho

end PollStore

/-! ### Runs -/

namespace Node

variable {faults : Faults} {n n' : Node} {os : List Opening}

theorem Step.registers {m : Move} (h : n.Step faults m n') (hs : n.polls.Registers os) :
    n'.polls.Registers (os ++ m.opening?.toList) := by
  have hsame : os ++ (none : Option Opening).toList = os := List.append_nil os
  cases h with
  | idle => exact hsame.symm ▸ hs
  | bound => exact hsame.symm ▸ hs
  | opened _ hpending hended => exact hs.put_new hpending hended
  | voted _ hpending => exact hsame.symm ▸ hs.put_votes _ hpending
  | released _ hpending => exact hsame.symm ▸ hs.finish _ hpending
  | restored => exact hsame.symm ▸ hs
  | stranded _ _ hpending => exact hsame.symm ▸ hs.finish _ hpending

theorem Moves.registers {ms : List Move} (h : n.Moves faults ms n') (hs : n.polls.Registers os) :
    n'.polls.Registers (os ++ ms.filterMap Move.opening?) := by
  induction h generalizing os with
  | nil =>
    rw [List.filterMap_nil, List.append_nil]
    exact hs
  | cons hstep _ ih =>
    rw [filterMap_cons_toList, ← List.append_assoc]
    exact ih (hstep.registers hs)

/-- A node has just the polls that were opened since it had none. -/
theorem run_registers {ledger : Ledger} {calls : List (Config × Call)} {replies : List Reply}
    (h : (ofLedger ledger).run faults calls = (replies, n)) :
    n.polls.Sound ∧ n.polls.Registers (openings calls replies) := by
  obtain ⟨ms, hmoves, -, hopenings⟩ := run_moves PollStore.sound_empty h
  refine ⟨hmoves.sound PollStore.sound_empty, ?_⟩
  rw [hopenings, ← List.nil_append (ms.filterMap _)]
  exact hmoves.registers PollStore.registers_empty

end Node

/-!
## What a pending poll is

A pending poll is what its opening made of it, and the votes that were counted since. None of them
goes missing and none is changed: a vote is only ever put in for an account that has none, a poll
that could not be paid out comes back with its votes, and a poll that has ended is not pending
again. All of this holds whichever requests are lost.
-/

/-! ### Votes -/

/-- The votes of the first poll are votes of the second, with their weights. -/
def Poll.VotesKept (p q : Poll) : Prop :=
  ∀ voter weight, p.votes.get? voter = some weight → q.votes.get? voter = some weight

theorem Poll.VotesKept.refl (p : Poll) : p.VotesKept p := fun _ _ h => h

theorem Poll.VotesKept.trans {p q r : Poll} (h : p.VotesKept q) (h' : q.VotesKept r) :
    p.VotesKept r :=
  fun voter weight hvote => h' voter weight (h voter weight hvote)

theorem Poll.votesKept_vote {p : Poll} {voter : AccountId} (weight : UInt64)
    (hnew : p.votes.get? voter = none) : p.VotesKept (p.vote voter weight) := by
  intro voter' weight' hvote
  have hother : voter ≠ voter' := by
    rintro rfl
    rw [hnew] at hvote
    cases hvote
  exact (Table.get?_insert_of_ne weight hother).trans hvote

/-- A vote that a poll has was cast by one of the ballots on it. -/
theorem Opening.Counts.ballot_of_vote {o : Opening} {bs : List Ballot} {p : Poll}
    (h : o.Counts bs p) {voter : AccountId} {weight : UInt64}
    (hvote : p.votes.get? voter = some weight) :
    ∃ b ∈ bs, b.voter = voter ∧ b.weight o.phasing = weight := by
  have hentry := h.votes.mem_iff.1 (Table.mem_entries_iff.2 hvote)
  obtain ⟨b, hb, heq⟩ := List.mem_map.1 hentry
  exact ⟨b, hb, congrArg Prod.fst heq, congrArg Prod.snd heq⟩

theorem Ballot.weight_of_account {p : Phasing} (h : p.weighting.model = .account) (b : Ballot) :
    b.weight p = 1 := by
  unfold weight
  cases hw : p.weighting with
  | account => rfl
  | balance =>
    rw [hw] at h
    cases h
  | asset id =>
    rw [hw] at h
    cases h

/-- Only a model that weighs votes by an asset names one. -/
theorem Weighting.assetId_of_not_asset {w : Weighting} (h : w.model ≠ .asset) : w.assetId = 0 := by
  cases w with
  | asset id => exact absurd rfl h
  | balance => rfl
  | account => rfl

namespace Node

variable {faults : Faults} {n n' : Node} {id : TransactionId} {p : Poll}

/-! ### Moves -/

/-- In one move, a pending poll ends or stays pending with the votes that it has. -/
theorem Step.votesKept {m : Move} (h : n.Step faults m n')
    (hp : n.polls.pending.get? id = some p) :
    (∃ q, n'.polls.pending.get? id = some q ∧ p.VotesKept q) ∨
      ∃ outcome, n'.polls.outcomes.get? id = some outcome := by
  have hsame : ∃ q, n.polls.pending.get? id = some q ∧ p.VotesKept q := ⟨p, hp, .refl p⟩
  have hfinish : ∀ (j : TransactionId) (outcome : PollOutcome),
      (∃ q, (n.polls.finish j outcome).pending.get? id = some q ∧ p.VotesKept q) ∨
        ∃ o, (n.polls.finish j outcome).outcomes.get? id = some o := by
    intro j outcome
    rw [PollStore.pending_finish, PollStore.outcomes_finish]
    by_cases hid : j = id
    · exact .inr ⟨outcome, if_pos hid⟩
    · rw [if_neg hid]
      exact .inl hsame
  have hput : ∀ q : Poll, q.id ≠ id →
      ∃ r, (n.polls.put q).pending.get? id = some r ∧ p.VotesKept r := by
    intro q hid
    rw [PollStore.pending_put, if_neg hid]
    exact hsame
  cases h with
  | idle => exact .inl hsame
  | bound => exact .inl hsame
  | @opened o _ hnew =>
    refine .inl (hput o.poll ?_)
    rintro rfl
    have hclash := hp.symm.trans hnew
    cases hclash
  | @voted q voter weight _ _ hpending htaken =>
    by_cases hid : q.id = id
    · obtain rfl : q = p := Option.some.inj (hpending.symm.trans (hid ▸ hp))
      have hnew := (Poll.voteRefusal?_eq_none_iff.1 htaken).2.2
      exact .inl ⟨_, (PollStore.pending_put ..).trans (if_pos hid), Poll.votesKept_vote weight hnew⟩
    · exact .inl (hput (q.vote voter weight) hid)
  | released => exact hfinish _ _
  | restored => exact .inl hsame
  | stranded => exact hfinish _ _

/-- However many moves lie between, a poll that is pending before and after has kept its votes. -/
theorem Moves.votesKept {ms : List Move} (h : n.Moves faults ms n') (hs : n.polls.Sound) {q : Poll}
    (hp : n.polls.pending.get? id = some p) (hq : n'.polls.pending.get? id = some q) :
    p.VotesKept q := by
  induction h generalizing p with
  | nil => exact Option.some.inj (hp.symm.trans hq) ▸ .refl p
  | cons hstep hrest ih =>
    have hs₁ := hstep.sound hs
    rcases hstep.votesKept hp with ⟨p₁, hp₁, hkept⟩ | ⟨outcome, hended⟩
    · exact hkept.trans (ih hs₁ hp₁ hq)
    · have hgone := (hrest.sound hs₁).not_pending (hrest.ended hs₁ hended).1
      rw [hgone] at hq
      cases hq

/-! ### Runs -/

/-- After any run, each identifier was opened at most once, and a poll that is pending under it has
    not ended, has the terms that it was opened with, an asset only if votes are weighed by one, and
    votes that keep to these terms. Any later run that leaves the poll pending leaves its votes. -/
theorem run_pending {ledger : Ledger} {calls : List (Config × Call)} {replies : List Reply}
    (hrun : (ofLedger ledger).run faults calls = (replies, n)) :
    ((openings calls replies).map (·.tx.id)).Nodup ∧
    ∀ id p, n.polls.pending.get? id = some p →
      n.polls.outcomes.get? id = none ∧
      p.id = id ∧
      (∃ o ∈ openings calls replies, o.tx.id = id ∧
        p = { Poll.ofTransaction o.tx o.phasing with votes := p.votes }) ∧
      (p.model ≠ .asset → p.assetId = 0) ∧
      (∀ voter weight, p.votes.get? voter = some weight →
        (p.voters = [] ∨ voter ∈ p.voters) ∧ p.threshold ≤ weight ∧
          (p.model = .account → weight = 1)) ∧
      ∀ faults' later replies' n' q, n.run faults' later = (replies', n') →
        n'.polls.pending.get? id = some q →
        ∀ voter weight, p.votes.get? voter = some weight → q.votes.get? voter = some weight := by
  obtain ⟨hs, hregisters⟩ := run_registers hrun
  have hcounts : n.polls.Counts (openings calls replies) ((ofLedger ledger).ballots faults calls) :=
    run_counts PollStore.sound_empty PollStore.counts_empty hrun
  refine ⟨hregisters.nodup, ?_⟩
  intro id p hp
  obtain ⟨o, ho, hid, hpoll⟩ := hcounts.of_pending hp
  have hmodel : p.model = o.phasing.weighting.model := congrArg Poll.model hpoll.terms
  have hasset : p.assetId = o.phasing.weighting.assetId := congrArg Poll.assetId hpoll.terms
  have hvoters : p.voters = o.phasing.voters := congrArg Poll.voters hpoll.terms
  have hthreshold : p.threshold = o.phasing.threshold := congrArg Poll.threshold hpoll.terms
  refine ⟨hs.not_ended hp, hs.id_of_pending hp, ⟨o, ho, hid, hpoll.terms⟩, ?_, ?_, ?_⟩
  · rw [hmodel, hasset]
    exact Weighting.assetId_of_not_asset
  · intro voter weight hvote
    obtain ⟨b, hb, rfl, rfl⟩ := hpoll.ballot_of_vote hvote
    have hkeeps := hpoll.keepTo b hb
    rw [hvoters, hthreshold, hmodel]
    exact ⟨hkeeps.eligible, hkeeps.heavy, fun haccount => Ballot.weight_of_account haccount b⟩
  · intro faults' later replies' n' q hlater hq
    obtain ⟨ms, hmoves, -⟩ := run_moves hs hlater
    exact hmoves.votesKept hs hp hq

/-! ### A run -/

/-- The payment that has its vote is approved, which fails as there is no room for the amount, and
    then it gets another vote. -/
def retriedNode : Node :=
  (votedNode.run .none ([.commit 7, .vote 7 4 160].map (.standard, ·))).2

/-- The first vote is still there. -/
theorem run_pending_retried :
    ∃ p q, votedNode.polls.pending.get? 7 = some p ∧ retriedNode.polls.pending.get? 7 = some q ∧
      p.votes.get? 3 = some 1 ∧ q.votes.get? 3 = some 1 := by
  obtain ⟨p, hp, hvote⟩ : ∃ p, votedNode.polls.pending.get? 7 = some p ∧
      p.votes.get? 3 = some 1 := ⟨_, rfl, rfl⟩
  obtain ⟨q, hq⟩ : ∃ q, retriedNode.polls.pending.get? 7 = some q := ⟨_, rfl⟩
  obtain ⟨-, hpending⟩ := run_pending (n := votedNode) (Prod.eta _).symm
  obtain ⟨-, -, -, -, -, hkept⟩ := hpending 7 p hp
  exact ⟨p, q, hp, hq, hvote, hkept .none _ _ _ q (Prod.eta _).symm hq 3 1 hvote⟩

end Node

end LedgerAppendix
