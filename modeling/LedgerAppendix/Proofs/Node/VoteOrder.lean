import LedgerAppendix.Proofs.Node.Voting

/-!
# Votes in any order

Two votes on a poll leave the same poll in either order. Where both are taken and come from
different accounts, both are in it; where they come from the same account, only the first one is,
and it weighs the same as the other. Whether a vote is taken depends on nothing else that a vote
changes. So a list of votes can be cast in any order, and each account's vote on each poll is
counted equally often, which is once or not at all.
-/

namespace LedgerAppendix

/-- A vote to be cast. -/
structure Vote where
  poll : TransactionId
  voter : AccountId
  height : UInt32

def Vote.call (v : Vote) : Call := .vote v.poll v.voter v.height

def votesOn (id : TransactionId) (votes : List Vote) : List Vote := votes.filter (·.poll = id)

/-- The reply to a vote that was counted. -/
def Reply.isTally : Reply → Bool
  | .tally (.ok _) => true
  | _ => false

/-- How often the vote of an account on a poll was counted, by the replies to some votes. -/
def timesCounted (id : TransactionId) (voter : AccountId) (votes : List Vote)
    (replies : List Reply) : Nat :=
  (votes.zip replies).countP fun (v, reply) => v.poll = id ∧ v.voter = voter ∧ reply.isTally

/-! ### One poll -/

namespace Poll

variable {p : Poll} {l : Ledger} {v w : Vote}

/-- The poll after a vote, which is in it if it is taken. -/
def take (p : Poll) (l : Ledger) (v : Vote) : Poll :=
  if p.Takes l v.voter v.height then p.vote v.voter (p.weigh l v.voter) else p

theorem take_of_takes (h : p.Takes l v.voter v.height) :
    p.take l v = p.vote v.voter (p.weigh l v.voter) :=
  if_pos h

theorem take_of_not_takes (h : ¬p.Takes l v.voter v.height) : p.take l v = p := if_neg h

/-- A vote in a poll keeps no account but its own from voting. -/
theorem takes_vote_iff {a voter : AccountId} {weight : UInt64} {height : UInt32} :
    (p.vote a weight).Takes l voter height ↔ a ≠ voter ∧ p.Takes l voter height := by
  constructor
  · rintro ⟨hintime, heligible, hnew, hheavy⟩
    have hother : a ≠ voter := by
      rintro rfl
      rw [vote, Table.get?_insert_self] at hnew
      cases hnew
    refine ⟨hother, hintime, heligible, ?_, hheavy⟩
    rwa [vote, Table.get?_insert_of_ne _ hother] at hnew
  · rintro ⟨hother, htakes⟩
    refine ⟨htakes.in_time, htakes.eligible, ?_, htakes.heavy⟩
    exact (Table.get?_insert_of_ne _ hother).trans htakes.new

/-- A vote that is not taken is not taken after another one either. -/
theorem take_take_of_not_takes (hw : ¬p.Takes l w.voter w.height) :
    (p.take l v).take l w = p.take l v := by
  apply take_of_not_takes
  by_cases hv : p.Takes l v.voter v.height
  · rw [take_of_takes hv]
    exact fun htakes => hw (takes_vote_iff.1 htakes).2
  · rwa [take_of_not_takes hv]

theorem take_comm (p : Poll) (l : Ledger) (v w : Vote) :
    (p.take l v).take l w = (p.take l w).take l v := by
  by_cases hv : p.Takes l v.voter v.height
  · by_cases hw : p.Takes l w.voter w.height
    · rw [take_of_takes hv, take_of_takes hw]
      by_cases hsame : v.voter = w.voter
      · -- two votes of one account, of which the first one counts: the weight is a matter of the
        -- account, not of the height, so either one may be first
        rw [take_of_not_takes fun htakes => (takes_vote_iff.1 htakes).1 hsame,
          take_of_not_takes fun htakes => (takes_vote_iff.1 htakes).1 hsame.symm, hsame]
      · -- the votes of two accounts
        rw [take_of_takes (takes_vote_iff.2 ⟨hsame, hw⟩),
          take_of_takes (takes_vote_iff.2 ⟨Ne.symm hsame, hv⟩)]
        exact congrArg (fun votes => { p with votes }) (Table.insert_comm _ hsame _ _)
    · -- only the first vote is taken
      rw [take_take_of_not_takes hw, take_of_not_takes hw]
  · -- the first vote is not taken
    rw [take_take_of_not_takes hv, take_of_not_takes hv]

theorem foldl_take_perm {votes votes' : List Vote} (h : votes.Perm votes') (p : Poll) (l : Ledger) :
    votes.foldl (·.take l ·) p = votes'.foldl (·.take l ·) p :=
  h.foldl_eq' (fun v _ w _ q => take_comm q l v w) p

end Poll

/-! ### All polls -/

theorem PollStore.pending_put_vote (s : PollStore) (p : Poll) (a : AccountId) (weight : UInt64)
    (id : TransactionId) :
    (s.put (p.vote a weight)).pending.get? id =
      if p.id = id then some (p.vote a weight) else s.pending.get? id :=
  pending_put ..

namespace Node

variable {faults : Faults} {n n' : Node}

/-- Without losses, a vote changes its poll as far as the poll takes it. -/
theorem pending_vote (hs : n.polls.Sound) (v : Vote) (id : TransactionId) :
    (n.vote .none v.poll v.voter v.height).2.polls.pending.get? id =
      (n.polls.pending.get? id).map fun p => if v.poll = id then p.take n.ledger v else p := by
  rcases takes_or_refusesVote n.polls n.ledger v.poll v.voter v.height with
    ⟨p, hp, htakes⟩ | ⟨e, hrefused⟩
  · -- the poll takes the vote
    obtain ⟨k, hvote⟩ := vote_of_takes hs hp htakes
    rw [hvote, PollStore.pending_put_vote, hs.id_of_pending hp]
    split
    · next hpoll => rw [← hpoll, hp, Option.map_some, Poll.take_of_takes htakes]
    · exact Option.map_id'.symm
  · -- the vote is refused, so the poll that it is for, if any, does not take it
    obtain ⟨k, hvote⟩ := vote_of_refusesVote hs hrefused
    rw [hvote]
    dsimp only
    cases hp : n.polls.pending.get? id with
    | none => rfl
    | some p =>
      refine congrArg some (Eq.symm ?_)
      split
      · next hpoll =>
        subst hpoll
        exact Poll.take_of_not_takes (hrefused.not_takes hp)
      · rfl

theorem vote_sound (hs : n.polls.Sound) {id : TransactionId} {voter : AccountId} {height : UInt32}
    {r : Except PollError UInt64} (h : n.vote faults id voter height = (r, n')) :
    n'.polls.Sound := by
  obtain ⟨m, hstep, -⟩ := vote_step hs h
  exact hstep.sound hs

theorem of_run_votes_cons {config : Config} {v : Vote} {votes : List Vote} {replies : List Reply}
    (h : n.run faults ((v :: votes).map (config, ·.call)) = (replies, n')) :
    ∃ r n₁ rest, n.vote faults v.poll v.voter v.height = (r, n₁) ∧
      n₁.run faults (votes.map (config, ·.call)) = (rest, n') ∧ replies = .tally r :: rest := by
  obtain ⟨reply, n₁, rest, hperform, hrest, rfl⟩ := of_run_cons h
  cases hperform
  exact ⟨_, _, rest, rfl, hrest, rfl⟩

/-- Some votes, cast one after the other without losses, change each poll as far as the poll takes
    those on it. -/
theorem run_votes (hs : n.polls.Sound) {config : Config} {votes : List Vote} {replies : List Reply}
    (h : n.run .none (votes.map (config, ·.call)) = (replies, n')) :
    n'.ledger = n.ledger ∧ n'.polls.outcomes = n.polls.outcomes ∧ n'.polls.Sound ∧
      ∀ id, n'.polls.pending.get? id =
        (n.polls.pending.get? id).map ((votesOn id votes).foldl (·.take n.ledger ·)) := by
  induction votes generalizing n replies with
  | nil =>
    cases h
    exact ⟨rfl, rfl, hs, fun id => Option.map_id'.symm⟩
  | cons v votes ih =>
    obtain ⟨r, n₁, rest, hvote, hrest, rfl⟩ := of_run_votes_cons h
    obtain ⟨hledger₁, houtcomes₁⟩ := vote_leaves hvote
    obtain ⟨hledger, houtcomes, hs', hpending⟩ := ih (vote_sound hs hvote) hrest
    refine ⟨hledger.trans hledger₁, houtcomes.trans houtcomes₁, hs', fun id => ?_⟩
    have hfirst := pending_vote hs v id
    rw [hvote] at hfirst
    rw [hpending, hledger₁, hfirst, Option.map_map]
    congr 1
    funext p
    by_cases hpoll : v.poll = id
    · rw [Function.comp_apply, if_pos hpoll, votesOn, votesOn,
        List.filter_cons_of_pos (by simpa using hpoll), List.foldl_cons]
    · rw [Function.comp_apply, if_neg hpoll, votesOn, votesOn,
        List.filter_cons_of_neg (by simpa using hpoll)]

end Node

/-! ### Counting -/

/-- The weight that an account's vote on a pending poll was counted with. -/
def PollStore.vote? (s : PollStore) (id : TransactionId) (voter : AccountId) : Option UInt64 :=
  (s.pending.get? id).bind (·.votes.get? voter)

theorem PollStore.vote?_put (s : PollStore) {p : Poll} (hp : s.pending.get? p.id = some p)
    (a : AccountId) (weight : UInt64) (id : TransactionId) (voter : AccountId) :
    (s.put (p.vote a weight)).vote? id voter =
      if p.id = id ∧ a = voter then some weight else s.vote? id voter := by
  unfold vote?
  rw [pending_put_vote]
  by_cases hid : p.id = id
  · subst hid
    rw [if_pos rfl, hp]
    exact (Table.get?_insert ..).trans (by simp)
  · rw [if_neg hid, if_neg fun h => hid h.1]

namespace Node

variable {faults : Faults} {n n' : Node}

/-- A vote that is counted was not there before and is there afterwards. -/
theorem vote?_vote (hs : n.polls.Sound) {v : Vote} {r : Except PollError UInt64}
    (h : n.vote faults v.poll v.voter v.height = (r, n')) (id : TransactionId)
    (voter : AccountId) :
    (n'.polls.vote? id voter).isSome.toNat = (n.polls.vote? id voter).isSome.toNat +
      if v.poll = id ∧ v.voter = voter ∧ (Reply.tally r).isTally then 1 else 0 := by
  rcases vote_cases h with ⟨e, k, rfl, rfl⟩ |
    ⟨p, weight, hp, htaken, -, -, ⟨tally, rfl⟩, k, rfl⟩
  · simp [Reply.isTally]
  · have hid := hs.id_of_pending hp
    rw [← hid] at hp
    have hnew : n.polls.vote? p.id v.voter = none := by
      rw [PollStore.vote?, hp]
      exact (Poll.voteRefusal?_eq_none_iff.1 htaken).2.2
    dsimp only
    rw [PollStore.vote?_put _ hp, hid]
    by_cases hsame : v.poll = id ∧ v.voter = voter
    · obtain ⟨rfl, rfl⟩ := hsame
      rw [hid] at hnew
      simp [hnew, Reply.isTally]
    · rw [if_neg hsame, if_neg fun hcounted => hsame ⟨hcounted.1, hcounted.2.1⟩, Nat.add_zero]

/-- So the count of such votes is read off the polls, whichever requests are lost. -/
theorem run_timesCounted (hs : n.polls.Sound) {config : Config} {votes : List Vote}
    {replies : List Reply} (h : n.run faults (votes.map (config, ·.call)) = (replies, n'))
    (id : TransactionId) (voter : AccountId) :
    (n'.polls.vote? id voter).isSome.toNat =
      (n.polls.vote? id voter).isSome.toNat + timesCounted id voter votes replies := by
  induction votes generalizing n replies with
  | nil =>
    cases h
    rfl
  | cons v votes ih =>
    obtain ⟨r, n₁, rest, hvote, hrest, rfl⟩ := of_run_votes_cons h
    -- Each step adds to the polls what it adds to the count, so the steps telescope.
    rw [ih (vote_sound hs hvote) hrest, vote?_vote hs hvote, timesCounted, timesCounted,
      List.zip_cons_cons, List.countP_cons, Nat.add_assoc, Nat.add_comm (List.countP ..)]
    simp

/-- In every state that a node can get into, and if no request is lost, some votes leave the same
    ledger and the same polls in whatever order they are cast. The vote of an account on a poll is
    counted equally often, and once at most. -/
theorem run_votes_perm (hn : n.Reachable) {votes votes' : List Vote} (hperm : votes.Perm votes')
    {config : Config} {replies replies' : List Reply} {m : Node}
    (h : n.run .none (votes.map (config, ·.call)) = (replies, n'))
    (h' : n.run .none (votes'.map (config, ·.call)) = (replies', m)) :
    n'.ledger = m.ledger ∧ n'.polls = m.polls ∧
      ∀ id voter, timesCounted id voter votes replies = timesCounted id voter votes' replies' ∧
        timesCounted id voter votes replies ≤ 1 := by
  obtain ⟨hledger, houtcomes, hs, hpending⟩ := run_votes hn.sound h
  obtain ⟨hledger', houtcomes', hs', hpending'⟩ := run_votes hn.sound h'
  have hpolls : n'.polls = m.polls := by
    apply hs.eq_of_get? hs'
    · intro id
      rw [hpending, hpending']
      congr 1
      funext p
      exact Poll.foldl_take_perm (hperm.filter _) p n.ledger
    · intro id
      rw [houtcomes, houtcomes']
  refine ⟨hledger.trans hledger'.symm, hpolls, fun id voter => ?_⟩
  have hcount := run_timesCounted hn.sound h id voter
  have hcount' := run_timesCounted hn.sound h' id voter
  have hle := (n'.polls.vote? id voter).isSome.toNat_le
  rw [← hpolls] at hcount'
  omega

/-- Votes of one account, of which one is late and one is on a poll that there never was. -/
def competingVotes : List Vote := [⟨7, 1, 250⟩, ⟨7, 1, 160⟩, ⟨7, 1, 200⟩, ⟨9, 1, 150⟩]

/-- Forwards and backwards, another one of them is counted, and the polls are the same. -/
theorem run_votes_perm_competing :
    let forwards := weighedNode.run .none (competingVotes.map (.standard, ·.call))
    let backwards := weighedNode.run .none (competingVotes.reverse.map (.standard, ·.call))
    weighedNode.Reachable ∧ competingVotes.Perm competingVotes.reverse ∧
      forwards.2.polls = backwards.2.polls ∧
      timesCounted 7 1 competingVotes forwards.1 = 1 ∧
      timesCounted 7 1 competingVotes.reverse backwards.1 = 1 := by
  intro forwards backwards
  have hreached : weighedNode.Reachable := (Reachable.start fullLedger).run (Prod.eta _).symm
  have hperm : competingVotes.Perm competingVotes.reverse := (List.reverse_perm _).symm
  obtain ⟨-, hpolls, hcounts⟩ :=
    run_votes_perm hreached hperm (Prod.eta forwards).symm (Prod.eta backwards).symm
  have honce : timesCounted 7 1 competingVotes forwards.1 = 1 := by decide +kernel
  exact ⟨hreached, hperm, hpolls, honce, (hcounts 7 1).1.symm.trans honce⟩

end Node

end LedgerAppendix
