import LedgerAppendix.Proofs.Node.Resolution
import LedgerAppendix.Proofs.Node.Undisturbed

/-!
# When votes are counted

`Poll.Takes` says which votes a pending poll takes: those that are cast in time, by an account that
may vote and has not voted, with enough weight. `Poll.Refuses` says why it does not take one, which
is the first of these that fails, and `PollStore.RefusesVote` has the polls in it that are not
pending.

Where no request is lost, these are all the reasons that there are (`vote_exact`). A vote that is
counted changes nothing but the votes of its poll, and one that is not counted changes nothing,
whichever requests are lost.
-/

namespace LedgerAppendix

namespace Poll

variable {p : Poll} {l : Ledger} {voter : AccountId} {height : UInt32} {e : PollError}

/-- The poll takes a vote of some account, cast at some height. -/
structure Takes (p : Poll) (l : Ledger) (voter : AccountId) (height : UInt32) : Prop where
  in_time : height ≤ p.maxHeight
  eligible : p.voters = [] ∨ voter ∈ p.voters
  new : p.votes.get? voter = none
  heavy : p.threshold ≤ p.weigh l voter

/-- Why the poll does not take the vote: it is late, or the account may not vote, or it has voted,
    or the vote weighs too little. The first of these counts. -/
inductive Refuses (p : Poll) (l : Ledger) (voter : AccountId) (height : UInt32) : PollError → Prop
  | votingClosed (hlate : p.maxHeight < height) :
    Refuses p l voter height (.votingClosed p.id p.maxHeight height)
  | notEligible (hintime : height ≤ p.maxHeight) (hstranger : ¬(p.voters = [] ∨ voter ∈ p.voters)) :
    Refuses p l voter height (.notEligible p.id voter)
  | duplicateVote {weight : UInt64} (hintime : height ≤ p.maxHeight)
    (heligible : p.voters = [] ∨ voter ∈ p.voters) (hvoted : p.votes.get? voter = some weight) :
    Refuses p l voter height (.duplicateVote p.id voter)
  | belowThreshold (hintime : height ≤ p.maxHeight) (heligible : p.voters = [] ∨ voter ∈ p.voters)
    (hnew : p.votes.get? voter = none) (hlight : p.weigh l voter < p.threshold) :
    Refuses p l voter height (.belowThreshold (p.weigh l voter) p.threshold)

theorem takes_or_refuses (p : Poll) (l : Ledger) (voter : AccountId) (height : UInt32) :
    p.Takes l voter height ∨ ∃ e, p.Refuses l voter height e := by
  by_cases hintime : height ≤ p.maxHeight
  · by_cases heligible : p.voters = [] ∨ voter ∈ p.voters
    · cases hvoted : p.votes.get? voter with
      | some weight => exact .inr ⟨_, .duplicateVote hintime heligible hvoted⟩
      | none =>
        by_cases hheavy : p.threshold ≤ p.weigh l voter
        · exact .inl ⟨hintime, heligible, hvoted, hheavy⟩
        · exact .inr ⟨_, .belowThreshold hintime heligible hvoted (UInt64.not_le.1 hheavy)⟩
    · -- the account may not vote
      exact .inr ⟨_, .notEligible hintime heligible⟩
  · -- the vote is late
    exact .inr ⟨_, .votingClosed (UInt32.not_le.1 hintime)⟩

theorem takes_iff :
    p.Takes l voter height ↔
      p.voteRefusal? voter height = none ∧ p.threshold ≤ p.weigh l voter := by
  rw [voteRefusal?_eq_none_iff]
  constructor
  · intro h
    exact ⟨⟨h.in_time, h.eligible, h.new⟩, h.heavy⟩
  · rintro ⟨⟨hintime, heligible, hnew⟩, hheavy⟩
    exact ⟨hintime, heligible, hnew, hheavy⟩

theorem Takes.voteRefusal? (h : p.Takes l voter height) : p.voteRefusal? voter height = none :=
  (takes_iff.1 h).1

instance (p : Poll) (l : Ledger) (voter : AccountId) (height : UInt32) :
    Decidable (p.Takes l voter height) :=
  decidable_of_iff _ takes_iff.symm

theorem Refuses.cases (h : p.Refuses l voter height e) :
    p.voteRefusal? voter height = some e ∨
      p.voteRefusal? voter height = none ∧ p.weigh l voter < p.threshold ∧
        e = .belowThreshold (p.weigh l voter) p.threshold := by
  cases h with
  | votingClosed hlate => exact .inl (if_pos hlate)
  | notEligible hintime hstranger =>
    refine .inl ?_
    simp [Poll.voteRefusal?, UInt32.not_lt.2 hintime, isEligible_iff, hstranger]
  | duplicateVote hintime heligible hvoted =>
    have hold : p.hasVoted voter = true := Option.isSome_iff_exists.2 ⟨_, hvoted⟩
    refine .inl ?_
    simp [Poll.voteRefusal?, UInt32.not_lt.2 hintime, isEligible_iff.2 heligible, hold]
  | belowThreshold hintime heligible hnew hlight =>
    exact .inr ⟨voteRefusal?_eq_none_iff.2 ⟨hintime, heligible, hnew⟩, hlight, rfl⟩

theorem Refuses.not_takes (h : p.Refuses l voter height e) : ¬p.Takes l voter height := by
  intro htakes
  rcases h.cases with hrefused | ⟨-, hlight, -⟩
  · rw [htakes.voteRefusal?] at hrefused
    cases hrefused
  · exact UInt64.not_le.2 hlight htakes.heavy

/-- The tally with a vote in it is the exact sum, as far as there are numbers for it. -/
theorem Takes.toNat_tally (h : p.Takes l voter height) :
    (p.vote voter (p.weigh l voter)).tally.toNat =
      min (2 ^ 64 - 1)
        ((p.weigh l voter).toNat + (p.votes.values.map UInt64.toNat).sum) := by
  rw [Poll.toNat_tally, sum_weights_vote _ h.new]

end Poll

/-- Why a vote on some identifier is refused: the poll under it has ended, or there never was one,
    or it is pending and does not take the vote. -/
inductive PollStore.RefusesVote (s : PollStore) (l : Ledger) (id : TransactionId)
    (voter : AccountId) (height : UInt32) : PollError → Prop
  | alreadyResolved {outcome : PollOutcome} (hmissing : s.pending.get? id = none)
    (hended : s.outcomes.get? id = some outcome) :
    RefusesVote s l id voter height (.alreadyResolved id outcome)
  | notFound (hmissing : s.pending.get? id = none) (hunknown : s.outcomes.get? id = none) :
    RefusesVote s l id voter height (.notFound id)
  | pending {p : Poll} {e : PollError} (hp : s.pending.get? id = some p)
    (hrefuses : p.Refuses l voter height e) : RefusesVote s l id voter height e

/-- A vote that is refused is not one that the poll takes. -/
theorem PollStore.RefusesVote.not_takes {s : PollStore} {l : Ledger} {id : TransactionId}
    {voter : AccountId} {height : UInt32} {e : PollError}
    (h : s.RefusesVote l id voter height e) {p : Poll} (hp : s.pending.get? id = some p) :
    ¬p.Takes l voter height := by
  cases h with
  | alreadyResolved hmissing =>
    rw [hmissing] at hp
    cases hp
  | notFound hmissing =>
    rw [hmissing] at hp
    cases hp
  | pending hp' hrefuses =>
    rw [hp] at hp'
    cases hp'
    exact hrefuses.not_takes

namespace Node

variable {n : Node} {id : TransactionId} {voter : AccountId} {height : UInt32}

/-- Where no request is lost, a vote that is taken is counted, with what it weighs. -/
theorem vote_of_takes (hs : n.polls.Sound) {p : Poll} (hp : n.polls.pending.get? id = some p)
    (htakes : p.Takes n.ledger voter height) :
    ∃ k, n.vote .none id voter height =
      (.ok (p.vote voter (p.weigh n.ledger voter)).tally,
        { n with
          polls := n.polls.put (p.vote voter (p.weigh n.ledger voter))
          journal := n.journal ++ (Move.voted p voter (p.weigh n.ledger voter)).events
          requests := k }) := by
  obtain rfl := hs.id_of_pending hp
  obtain ⟨k, hvote⟩ := vote_of_taken hs hp htakes.voteRefusal?
  rw [hvote]
  exact countVote_of_heavy (n := { n with requests := k }) hs hp htakes.heavy voter

/-- And one that is refused changes nothing but the count of requests. -/
theorem vote_of_refusesVote (hs : n.polls.Sound) {e : PollError}
    (h : n.polls.RefusesVote n.ledger id voter height e) :
    ∃ k, n.vote .none id voter height = (.error e, { n with requests := k }) := by
  cases h with
  | alreadyResolved hmissing hended =>
    rw [vote_of_missing hs hmissing voter height rfl rfl, hended]
    exact ⟨_, rfl⟩
  | notFound hmissing hunknown =>
    rw [vote_of_missing hs hmissing voter height rfl rfl, hunknown]
    exact ⟨_, rfl⟩
  | pending hp hrefuses =>
    obtain rfl := hs.id_of_pending hp
    rcases hrefuses.cases with hrefused | ⟨htaken, hlight, rfl⟩
    · exact ⟨_, vote_of_refused hs hp hrefused⟩
    · obtain ⟨k, hvote⟩ := vote_of_taken hs hp htaken
      exact ⟨k, hvote.trans (countVote_of_light hlight ..)⟩

theorem takes_or_refusesVote (s : PollStore) (l : Ledger) (id : TransactionId) (voter : AccountId)
    (height : UInt32) :
    (∃ p, s.pending.get? id = some p ∧ p.Takes l voter height) ∨
      ∃ e, s.RefusesVote l id voter height e := by
  cases hp : s.pending.get? id with
  | none =>
    cases hended : s.outcomes.get? id with
    | none => exact .inr ⟨_, .notFound hp hended⟩
    | some outcome => exact .inr ⟨_, .alreadyResolved hp hended⟩
  | some p =>
    rcases p.takes_or_refuses l voter height with htakes | ⟨e, hrefuses⟩
    · exact .inl ⟨p, rfl, htakes⟩
    · exact .inr ⟨e, .pending hp hrefuses⟩

/-- Where no request is lost, the votes that polls take are the ones that are counted. -/
theorem vote_eq_ok_iff (hs : n.polls.Sound) {t : UInt64} :
    (n.vote .none id voter height).1 = .ok t ↔
      ∃ p, n.polls.pending.get? id = some p ∧ p.Takes n.ledger voter height ∧
        t = (p.vote voter (p.weigh n.ledger voter)).tally := by
  constructor
  · intro hcounted
    rcases takes_or_refusesVote n.polls n.ledger id voter height with
      ⟨p, hp, htakes⟩ | ⟨e, hrefused⟩
    · obtain ⟨k, hvote⟩ := vote_of_takes hs hp htakes
      rw [hvote] at hcounted
      cases hcounted
      exact ⟨p, hp, htakes, rfl⟩
    · obtain ⟨k, hvote⟩ := vote_of_refusesVote hs hrefused
      rw [hvote] at hcounted
      cases hcounted
  · rintro ⟨p, hp, htakes, rfl⟩
    obtain ⟨k, hvote⟩ := vote_of_takes hs hp htakes
    rw [hvote]

/-- The others are refused, and each for one reason only. -/
theorem vote_eq_error_iff (hs : n.polls.Sound) {e : PollError} :
    (n.vote .none id voter height).1 = .error e ↔
      n.polls.RefusesVote n.ledger id voter height e := by
  constructor
  · intro hrefused
    rcases takes_or_refusesVote n.polls n.ledger id voter height with
      ⟨p, hp, htakes⟩ | ⟨e', hrefused'⟩
    · obtain ⟨k, hvote⟩ := vote_of_takes hs hp htakes
      rw [hvote] at hrefused
      cases hrefused
    · obtain ⟨k, hvote⟩ := vote_of_refusesVote hs hrefused'
      rw [hvote] at hrefused
      cases hrefused
      exact hrefused'
  · intro hrefused
    obtain ⟨k, hvote⟩ := vote_of_refusesVote hs hrefused
    rw [hvote]

/-- A vote that fails, also for a request that is lost, leaves the ledger and the polls. -/
theorem vote_of_error {faults : Faults} {e : PollError}
    (h : (n.vote faults id voter height).1 = .error e) :
    (n.vote faults id voter height).2.ledger = n.ledger ∧
      (n.vote faults id voter height).2.polls = n.polls := by
  rcases vote_cases (Prod.eta (n.vote faults id voter height)).symm with
    ⟨_, k, -, hn'⟩ | ⟨_, _, -, -, -, -, ⟨_, hok⟩, -⟩
  · rw [hn']
    exact ⟨rfl, rfl⟩
  · rw [hok] at h
    cases h

/-- In every state that a node can get into, and if no request is lost, a vote is counted just if a
    pending poll takes it, and else it is refused for the first reason that there is. The answer is
    the exact sum of the weights, stopped at the greatest number. What a counted vote changes is the
    votes of its poll. A vote that is refused, for whatever reason, changes neither the ledger nor
    the polls. -/
theorem vote_exact (hn : n.Reachable) (id : TransactionId) (voter : AccountId) (height : UInt32) :
    (∀ t, (n.vote .none id voter height).1 = .ok t ↔
      ∃ p, n.polls.pending.get? id = some p ∧ p.Takes n.ledger voter height ∧
        t.toNat = min (2 ^ 64 - 1)
          ((p.weigh n.ledger voter).toNat + (p.votes.values.map UInt64.toNat).sum)) ∧
    (∀ p, n.polls.pending.get? id = some p → p.Takes n.ledger voter height →
      (n.vote .none id voter height).2.ledger = n.ledger ∧
      (n.vote .none id voter height).2.polls =
        { n.polls with
          pending := n.polls.pending.insert id
            { p with votes := p.votes.insert voter (p.weigh n.ledger voter) } }) ∧
    (∀ e, (n.vote .none id voter height).1 = .error e ↔
      n.polls.RefusesVote n.ledger id voter height e) ∧
    ∀ faults e, (n.vote faults id voter height).1 = .error e →
      (n.vote faults id voter height).2.ledger = n.ledger ∧
      (n.vote faults id voter height).2.polls = n.polls := by
  have hs := hn.sound
  refine ⟨fun t => ?_, fun p hp htakes => ?_, fun e => vote_eq_error_iff hs,
    fun _ _ => vote_of_error⟩
  · rw [vote_eq_ok_iff hs]
    refine exists_congr fun p => and_congr_right fun _ => and_congr_right fun htakes => ?_
    rw [← htakes.toNat_tally, UInt64.toNat_inj]
  · obtain ⟨k, hvote⟩ := vote_of_takes hs hp htakes
    obtain rfl := hs.id_of_pending hp
    rw [hvote]
    exact ⟨rfl, rfl⟩

/-- A payment on which votes are weighed by balance, with one vote of the greatest balance there
    is. -/
def weighedNode : Node :=
  ((ofLedger fullLedger).run .none
    [(.standard, .apply ⟨7, 1, .ordinaryPayment, 1, some 2, 10, 100⟩
      { AppendixSet.empty with phasing := some ⟨1, 200, 1, 2, .balance, []⟩ }),
    (.standard, .vote 7 2 150)]).2

/-- One more vote is counted at the last height, where the tally stays at the greatest number, and
    an account with nothing in it has no vote. -/
theorem vote_exact_weighed :
    weighedNode.Reachable ∧
      (weighedNode.vote .none 7 1 200).1 = .ok maxWord ∧
      (weighedNode.vote .none 7 3 200).1 = .error (.belowThreshold 0 2) := by
  have hreached : weighedNode.Reachable := (Reachable.start fullLedger).run (Prod.eta _).symm
  obtain ⟨p, hp, htakes, htally, hrefuses⟩ : ∃ p, weighedNode.polls.pending.get? 7 = some p ∧
      p.Takes weighedNode.ledger 1 200 ∧
      maxWord.toNat = min (2 ^ 64 - 1)
        ((p.weigh weighedNode.ledger 1).toNat + (p.votes.values.map UInt64.toNat).sum) ∧
      p.Refuses weighedNode.ledger 3 200 (.belowThreshold 0 2) := by
    refine ⟨_, rfl, by decide +kernel, by decide +kernel, ?_⟩
    exact .belowThreshold (by decide +kernel) (.inl rfl) rfl (by decide +kernel)
  refine ⟨hreached, ?_, ?_⟩
  · obtain ⟨hcounted, -⟩ := vote_exact hreached 7 1 200
    exact (hcounted maxWord).2 ⟨p, hp, htakes, htally⟩
  · obtain ⟨-, -, hrefused, -⟩ := vote_exact hreached 7 3 200
    exact (hrefused _).2 (.pending hp hrefuses)

end Node

end LedgerAppendix
