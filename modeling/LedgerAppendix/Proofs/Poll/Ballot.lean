import LedgerAppendix.Proofs.Node.Move
import LedgerAppendix.Proofs.Poll.Tally

/-!
# Ballots

A ballot is a vote that was taken: on which poll, by whom, at which height, and what the ledger held
then, from which its weight follows by the terms of the poll. The votes of a pending poll are the
ballots on it, one for each voter, and each of them keeps to the terms that the poll was opened
with (`PollStore.Counts`). A store keeps to this whatever becomes of its polls.
-/

namespace LedgerAppendix

/-- What the vote of an account weighs. -/
def Weighting.weigh (w : Weighting) (l : Ledger) (voter : AccountId) : UInt64 :=
  match w with
  | .account => 1
  | .balance => l.balance voter
  | .asset id => l.assetBalance voter id

/-- A vote that was taken. -/
structure Ballot where
  poll : TransactionId
  voter : AccountId
  height : UInt32
  /-- The ledger when the vote was cast. -/
  ledger : Ledger

/-- What the ballot weighs under some terms. -/
def Ballot.weight (b : Ballot) (p : Phasing) : UInt64 := p.weighting.weigh b.ledger b.voter

/-- The ballot keeps to the terms of a poll: the voter may vote, in time, and with that weight. -/
structure Ballot.KeepsTo (b : Ballot) (p : Phasing) : Prop where
  eligible : p.voters = [] ∨ b.voter ∈ p.voters
  in_time : b.height ≤ p.maxHeight
  heavy : p.threshold ≤ b.weight p

def ballotsOn (id : TransactionId) (bs : List Ballot) : List Ballot := bs.filter (·.poll = id)

/-- The exact sum of the weights of some ballots. -/
def Phasing.support (p : Phasing) (bs : List Ballot) : Nat :=
  (bs.map fun b => (b.weight p).toNat).sum

theorem ballotsOn_append (id : TransactionId) (bs : List Ballot) (b : Ballot) :
    ballotsOn id (bs ++ [b]) = ballotsOn id bs ++ if b.poll = id then [b] else [] := by
  unfold ballotsOn
  rw [List.filter_append]
  by_cases hid : b.poll = id
  · rw [if_pos hid, List.filter_cons_of_pos (by simpa using hid), List.filter_nil]
  · rw [if_neg hid, List.filter_cons_of_neg (by simpa using hid), List.filter_nil]

/-- A poll has the votes that some ballots give it, and its other data from its opening. -/
structure Opening.Counts (o : Opening) (bs : List Ballot) (p : Poll) : Prop where
  terms : p = { o.poll with votes := p.votes }
  votes : p.votes.entries.Perm (bs.map fun b => (b.voter, b.weight o.phasing))
  keepTo : ∀ b ∈ bs, b.KeepsTo o.phasing

namespace Opening.Counts

variable {o : Opening} {bs : List Ballot} {p : Poll}

theorem nodup (h : o.Counts bs p) : (bs.map (·.voter)).Nodup := by
  have hkeys : (p.votes.entries.map (·.1)).Nodup :=
    List.pairwise_map.2 (p.votes.ascending.imp UInt64.ne_of_lt)
  have hperm := h.votes.map (·.1)
  rw [List.map_map] at hperm
  exact hperm.nodup_iff.1 hkeys

theorem quorum_le_tally_iff (h : o.Counts bs p) :
    p.quorum ≤ p.tally ↔ o.phasing.quorum.toNat ≤ o.phasing.support bs := by
  have hquorum : p.quorum = o.phasing.quorum := congrArg Poll.quorum h.terms
  have hsum := (h.votes.map fun vote => vote.2.toNat).sum_nat
  rw [List.map_map] at hsum
  rw [Poll.quorum_le_tally_iff, hquorum, Table.values, List.map_map]
  exact hsum ▸ Iff.rfl

theorem opened (o : Opening) : o.Counts [] o.poll := by
  constructor
  case terms => rfl
  case votes => exact .nil
  case keepTo => exact List.forall_mem_nil _

theorem voted (h : o.Counts bs p) {b : Ballot} (hnew : p.votes.get? b.voter = none)
    (hb : b.KeepsTo o.phasing) :
    o.Counts (bs ++ [b]) (p.vote b.voter (b.weight o.phasing)) := by
  constructor
  case terms => rw [Poll.vote, h.terms]
  case votes =>
    rw [List.map_append, List.map_singleton]
    exact (Table.perm_entries_insert _ hnew).trans
      ((h.votes.cons _).trans (List.perm_append_singleton _ _).symm)
  case keepTo =>
    intro b' hb'
    rcases List.mem_append.1 hb' with hb' | hb'
    · exact h.keepTo b' hb'
    · exact List.mem_singleton.1 hb' ▸ hb

end Opening.Counts

/-- Each pending poll of a store was opened by one of some openings and has the votes that some
    ballots give it, and there are no ballots on polls that the store never had. -/
structure PollStore.Counts (s : PollStore) (os : List Opening) (bs : List Ballot) : Prop where
  of_pending : ∀ {id p}, s.pending.get? id = some p →
    ∃ o ∈ os, o.tx.id = id ∧ o.Counts (ballotsOn id bs) p
  known : ∀ b ∈ bs, s.pending.get? b.poll ≠ none ∨ s.outcomes.get? b.poll ≠ none

namespace PollStore

variable {s : PollStore} {os : List Opening} {bs : List Ballot}

theorem counts_empty : empty.Counts [] [] := by
  constructor
  case of_pending =>
    intro id p h
    cases h
  case known => exact List.forall_mem_nil _

theorem Counts.put_new (h : s.Counts os bs) {o : Opening}
    (hpending : s.pending.get? o.tx.id = none) (hended : s.outcomes.get? o.tx.id = none) :
    (s.put o.poll).Counts (os ++ [o]) bs := by
  have hnone : ballotsOn o.tx.id bs = [] := by
    apply List.filter_eq_nil_iff.2
    intro b hb hid
    rcases h.known b hb with hknown | hknown
    · exact hknown (of_decide_eq_true hid ▸ hpending)
    · exact hknown (of_decide_eq_true hid ▸ hended)
  constructor
  case of_pending =>
    intro id p hp
    rw [pending_put] at hp
    split at hp
    · next hid =>
      -- no ballots are on the new poll
      cases hp
      obtain rfl : o.tx.id = id := hid
      refine ⟨o, List.mem_append_right _ List.mem_cons_self, rfl, ?_⟩
      rw [hnone]
      exact .opened o
    · -- a poll that was pending before
      obtain ⟨o', ho', hcounts⟩ := h.of_pending hp
      exact ⟨o', List.mem_append_left _ ho', hcounts⟩
  case known =>
    intro b hb
    rw [pending_put]
    split
    · exact .inl (Option.some_ne_none _)
    · exact h.known b hb

theorem Counts.put_vote (h : s.Counts os bs) {p : Poll} {b : Ballot} {weight : UInt64}
    (hpending : s.pending.get? p.id = some p) (hb : b.poll = p.id)
    (hnew : p.votes.get? b.voter = none)
    (hkeeps : ∀ o : Opening, p = { o.poll with votes := p.votes } →
      b.KeepsTo o.phasing ∧ weight = b.weight o.phasing) :
    (s.put (p.vote b.voter weight)).Counts os (bs ++ [b]) := by
  constructor
  case of_pending =>
    intro id q hq
    rw [pending_put] at hq
    rw [ballotsOn_append, hb]
    split at hq
    · next hid =>
      -- the poll that is voted on
      cases hq
      obtain rfl : p.id = id := hid
      obtain ⟨o, ho, hoid, hcounts⟩ := h.of_pending hpending
      obtain ⟨hkeepsTo, rfl⟩ := hkeeps o hcounts.terms
      rw [if_pos rfl]
      exact ⟨o, ho, hoid, hcounts.voted hnew hkeepsTo⟩
    · next hid =>
      -- the ballot is not on any other poll
      obtain rest := h.of_pending hq
      have hother : ¬p.id = id := hid
      rw [if_neg hother, List.append_nil]
      exact rest
  case known =>
    intro b' hb'
    rw [pending_put]
    split
    · exact .inl (Option.some_ne_none _)
    · next hid =>
      rcases List.mem_append.1 hb' with hb' | hb'
      · exact h.known b' hb'
      · rw [List.mem_singleton.1 hb', hb] at hid
        exact absurd rfl hid

theorem Counts.finish (h : s.Counts os bs) (id : TransactionId) (outcome : PollOutcome) :
    (s.finish id outcome).Counts os bs := by
  constructor
  case of_pending =>
    intro j p hp
    rw [pending_finish] at hp
    split at hp
    · cases hp
    · exact h.of_pending hp
  case known =>
    intro b hb
    rw [pending_finish, outcomes_finish]
    split
    · exact .inr (Option.some_ne_none _)
    · exact h.known b hb

end PollStore

end LedgerAppendix
