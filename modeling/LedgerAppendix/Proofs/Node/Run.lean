import LedgerAppendix.Node.Call
import LedgerAppendix.Proofs.Node.Attempt
import LedgerAppendix.Proofs.Node.Request

/-!
# Calls are made of moves

Every call is taken apart into the moves that the node makes, and what the call answers about
openings and resolutions is read off these moves: a poll counts as opened where the effect of its
phasing says so, and as resolved where a reply reports the resolution. A call that opens polls does
not release any amount.

Casting a vote and resolving a poll are one move each, whatever comes in between. Only
`apply` and `resolveDue` make several, one for each appendix and one for each poll that is due.
-/

namespace LedgerAppendix

/-- The resolutions that a reply reports. -/
def Reply.resolutions : Reply → List Resolution
  | .resolution (.ok r) => [r]
  | .report (.ok r) => r.resolved
  | _ => []

theorem Reply.resolutions_resolution (r : Except PollError Resolution) :
    (Reply.resolution r).resolutions = r.toOption.toList := by
  cases r <;> rfl

/-- The opening that an effect tells of, next to the appendix that had it. -/
def opening? (tx : Transaction) : Appendix × Effect → Option Opening
  | (.phasing p, effect) => if effect = .pollOpened tx.id then some ⟨tx, p⟩ else none
  | _ => none

/-- The polls that were opened, by a call and its reply. -/
def Call.openings : Call → Reply → List Opening
  | .apply tx s, .effects es => (s.toList.zip es).filterMap (opening? tx)
  | _, _ => []

/-- The polls that were opened, by the calls of a run and the replies to them. -/
def openings (calls : List (Config × Call)) (replies : List Reply) : List Opening :=
  (calls.zip replies).flatMap fun (call, reply) => call.2.openings reply

namespace Node

variable {faults : Faults} {n n' : Node}

theorem step_asked (n : Node) (k : Nat) :
    n.Step faults (.idle []) { n with requests := k } := by
  have hstep : n.Step faults (.idle []) _ := .idle k (List.forall_mem_nil _)
  rwa [Move.events, List.append_nil] at hstep

theorem step_noted {e : Event} (k : Nat) (he : e.isNote) :
    n.Step faults (.idle [e]) { n with journal := n.journal ++ [e], requests := k } := by
  apply Step.idle
  intro e' he'
  rw [List.mem_singleton.1 he']
  exact he

theorem step_record (n : Node) {e : Event} (he : e.isNote) :
    n.Step faults (.idle [e]) (n.record e) :=
  step_noted n.requests he

/-! ### Votes -/

/-- Weighing a vote changes nothing but the count of requests. -/
theorem of_voteWeight {p : Poll} {voter : AccountId} {r : Except LedgerError UInt64}
    (h : n.voteWeight faults p voter = (r, n')) : ∃ k, n' = { n with requests := k } := by
  unfold voteWeight at h
  split at h
  · cases h
    exact ⟨_, rfl⟩
  · exact ⟨_, (of_askLedger (·.balance voter) h).1⟩
  · exact ⟨_, (of_askLedger (·.assetBalance voter p.assetId) h).1⟩

theorem countVote_cases {p : Poll} {voter : AccountId} {weight : UInt64}
    {r : Except PollError UInt64} (h : n.countVote faults p voter weight = (r, n')) :
    (∃ e k, r = .error e ∧ n' = { n with requests := k }) ∨
      p.threshold ≤ weight ∧ (∃ tally, r = .ok tally) ∧ ∃ k,
        n' = { n with
          polls := n.polls.put (p.vote voter weight)
          journal := n.journal ++ (Move.voted p voter weight).events
          requests := k } := by
  unfold countVote at h
  split at h
  · -- the weight is below the threshold
    cases h
    exact .inl ⟨_, n.requests, rfl, rfl⟩
  · next hweight =>
    dsimp only at h
    split at h
    · next hupdate =>
      -- the poll is not updated
      cases h
      rcases updatePoll_cases hupdate with ⟨-, -, rfl⟩ | ⟨hr, -⟩
      · exact .inl ⟨_, _, rfl, rfl⟩
      · cases hr
    · next hupdate =>
      -- the poll is updated
      cases h
      rcases updatePoll_cases hupdate with ⟨_, hr, -⟩ | ⟨-, rfl⟩
      · cases hr
      · exact .inr ⟨UInt64.not_lt.1 hweight, ⟨_, rfl⟩, _, rfl⟩

/-- A vote is refused, or the poll takes it and counts it with the weight that the ledger gives. -/
theorem vote_cases {id : TransactionId} {voter : AccountId} {height : UInt32}
    {r : Except PollError UInt64} (h : n.vote faults id voter height = (r, n')) :
    (∃ e k, r = .error e ∧ n' = { n with requests := k }) ∨
      ∃ p weight, n.polls.pending.get? id = some p ∧ p.voteRefusal? voter height = none ∧
        (n.tick.voteWeight faults p voter).1 = .ok weight ∧ p.threshold ≤ weight ∧
        (∃ tally, r = .ok tally) ∧ ∃ k,
          n' = { n with
            polls := n.polls.put (p.vote voter weight)
            journal := n.journal ++ (Move.voted p voter weight).events
            requests := k } := by
  unfold vote at h
  split at h
  · -- the store does not answer
    next hget =>
    cases h
    obtain ⟨rfl, -⟩ := of_getPoll hget
    exact .inl ⟨_, _, rfl, rfl⟩
  · -- no poll is pending
    next hget =>
    obtain ⟨rfl, -⟩ := of_getPoll hget
    split at h
    next hmissing =>
    cases h
    obtain rfl := of_missingPoll (n := n.tick) hmissing
    exact .inl ⟨_, _, rfl, rfl⟩
  · next p n₁ hget =>
    obtain ⟨rfl, hfound⟩ := of_getPoll hget
    split at h
    · -- the poll does not take the vote
      cases h
      exact .inl ⟨_, _, rfl, rfl⟩
    · next htaken =>
      split at h
      · -- the ledger does not say what the vote weighs
        next hweight =>
        cases h
        obtain ⟨k, rfl⟩ := of_voteWeight hweight
        exact .inl ⟨_, _, rfl, rfl⟩
      · next weight n₂ hweight =>
        obtain ⟨k, rfl⟩ := of_voteWeight hweight
        rcases countVote_cases h with ⟨e, k, hr, rfl⟩ | ⟨hheavy, htally, k, rfl⟩
        · exact .inl ⟨e, k, hr, rfl⟩
        · have hweigh := congrArg Prod.fst hweight
          exact .inr ⟨p, weight, hfound _ rfl, htaken, hweigh, hheavy, htally, k, rfl⟩

/-- Whatever comes of a vote, it leaves the ledger and the outcomes. -/
theorem vote_leaves {id : TransactionId} {voter : AccountId} {height : UInt32}
    {r : Except PollError UInt64} (h : n.vote faults id voter height = (r, n')) :
    n'.ledger = n.ledger ∧ n'.polls.outcomes = n.polls.outcomes := by
  rcases vote_cases h with ⟨e, k, -, rfl⟩ | ⟨p, weight, -, -, -, -, -, k, rfl⟩
  · exact ⟨rfl, rfl⟩
  · exact ⟨rfl, rfl⟩

theorem vote_step (hs : n.polls.Sound) {id : TransactionId} {voter : AccountId} {height : UInt32}
    {r : Except PollError UInt64} (h : n.vote faults id voter height = (r, n')) :
    ∃ m, n.Step faults m n' ∧ m.opening? = none ∧ m.resolution? = none := by
  rcases vote_cases h with
    ⟨e, k, -, rfl⟩ | ⟨p, weight, hpending, htaken, -, hheavy, -, k, rfl⟩
  · exact ⟨_, step_asked n k, rfl, rfl⟩
  · obtain rfl := hs.id_of_pending hpending
    exact ⟨_, .voted k hpending htaken hheavy, rfl, rfl⟩

/-! ### Resolutions -/

theorem resolve_step (hs : n.polls.Sound) {id : TransactionId} {outcome : PollOutcome}
    {r : Except PollError Resolution} (h : n.resolve faults id outcome = (r, n')) :
    ∃ m, n.Step faults m n' ∧ m.opening? = none ∧ r.toOption = m.resolution? := by
  rcases resolve_cases hs h with ⟨-, p, ledger, k, -, hpending, hpaid, rfl, rfl⟩ |
    ⟨⟨_, _, _, _, hlost⟩, p, account, error, fault, k, -, hpending, haccount, rfl, rfl⟩ |
    ⟨-, -, e, rfl, ⟨k, rfl⟩ | ⟨p, account, error, k, hpending, haccount, rfl⟩⟩
  · -- paid out
    exact ⟨_, .released k hpending hpaid, rfl, rfl⟩
  · -- left resolved, since the request to put it back is lost
    obtain ⟨reason, hreason⟩ := Option.isSome_iff_exists.1 hlost
    exact ⟨_, .stranded _ k hpending haccount hreason, rfl, rfl⟩
  · -- refused before anything is retired
    exact ⟨_, step_asked n k, rfl, rfl⟩
  · -- put back after a payment that failed
    exact ⟨_, .restored k hpending haccount, rfl, rfl⟩

/-- The first poll of a list is left out, or it is resolved, or that fails. -/
theorem resolveEach_cons_cases {early : Bool} {height : UInt32} {p : Poll} {ps : List Poll}
    {report : HeightReport} (h : n.resolveEach faults early height (p :: ps) = (report, n')) :
    (p.decision? early height = none ∧ n.resolveEach faults early height ps = (report, n')) ∨
    (∃ outcome r n₁ rest, p.decision? early height = some outcome ∧
      n.resolve faults p.id outcome = (.ok r, n₁) ∧
      n₁.resolveEach faults early height ps = (rest, n') ∧
      report = { rest with resolved := r :: rest.resolved }) ∨
    ∃ outcome e n₁ rest, p.decision? early height = some outcome ∧
      n.resolve faults p.id outcome = (.error e, n₁) ∧
      (n₁.record (.pollLeft p.id height e)).resolveEach faults early height ps = (rest, n') ∧
      report = { rest with failed := (p.id, e) :: rest.failed } := by
  unfold resolveEach at h
  split at h
  · next hdecided => exact .inl ⟨hdecided, h⟩
  · next outcome hdecided =>
    split at h
    · next r n₁ hresolve =>
      split at h
      next rest n₂ hrest =>
      cases h
      exact .inr (.inl ⟨outcome, r, n₁, rest, hdecided, hresolve, hrest, rfl⟩)
    · next e n₁ hresolve =>
      split at h
      next rest n₂ hrest =>
      cases h
      exact .inr (.inr ⟨outcome, e, n₁, rest, hdecided, hresolve, hrest, rfl⟩)

theorem resolveEach_moves (hs : n.polls.Sound) {early : Bool} {height : UInt32} {ps : List Poll}
    {report : HeightReport} (h : n.resolveEach faults early height ps = (report, n')) :
    ∃ ms, n.Moves faults ms n' ∧ (∀ m ∈ ms, m.opening? = none) ∧
      report.resolved = ms.filterMap Move.resolution? := by
  induction ps generalizing n report with
  | nil =>
    cases h
    exact ⟨[], .nil _, List.forall_mem_nil _, rfl⟩
  | cons p ps ih =>
    rcases resolveEach_cons_cases h with ⟨-, hrest⟩ |
      ⟨outcome, r, n₁, rest, -, hresolve, hrest, rfl⟩ |
      ⟨outcome, e, n₁, rest, -, hresolve, hrest, rfl⟩
    · -- left out
      exact ih hs hrest
    · -- resolved
      obtain ⟨m, hstep, hopening, hr⟩ := resolve_step hs hresolve
      obtain ⟨ms, hmoves, hopenings, hresolved⟩ := ih (hstep.sound hs) hrest
      refine ⟨m :: ms, .cons hstep hmoves, List.forall_mem_cons.2 ⟨hopening, hopenings⟩, ?_⟩
      rw [List.filterMap_cons_some hr.symm, hresolved]
    · -- failed: a note is journalled in between
      obtain ⟨m, hstep, hopening, hr⟩ := resolve_step hs hresolve
      have hleft : n₁.Step faults (.idle [.pollLeft p.id height e]) _ := step_record n₁ rfl
      obtain ⟨ms, hmoves, hopenings, hresolved⟩ := ih (hleft.sound (hstep.sound hs)) hrest
      refine ⟨m :: .idle _ :: ms, .cons hstep (.cons hleft hmoves), ?_, ?_⟩
      · exact List.forall_mem_cons.2 ⟨hopening, List.forall_mem_cons.2 ⟨rfl, hopenings⟩⟩
      · rw [List.filterMap_cons_none hr.symm, List.filterMap_cons_none rfl, hresolved]

/-- The pending polls cannot be listed, or they are gone through one by one, and at most a note
    about the height comes after that. -/
theorem resolveDue_cases {early : Bool} {height : UInt32}
    {r : Except PollError HeightReport} (h : n.resolveDue faults early height = (r, n')) :
    (∃ e, r = .error e ∧ n' = n.tick) ∨
      ∃ report n₁, r = .ok report ∧
        n.tick.resolveEach faults early height n.polls.pending.values = (report, n₁) ∧
        (n' = n₁ ∨
          n' = n₁.record (.heightDone height report.resolved.length report.failed.length)) := by
  unfold resolveDue at h
  split at h
  · next hlist =>
    obtain ⟨rfl, -⟩ := of_pendingPolls hlist
    cases h
    exact .inl ⟨_, rfl, rfl⟩
  · next hlist =>
    obtain ⟨rfl, hlisted⟩ := of_pendingPolls hlist
    split at h
    next report n₁ heach =>
    cases h
    rw [← hlisted _ rfl] at heach
    refine .inr ⟨report, n₁, rfl, heach, ?_⟩
    split
    · exact .inl rfl
    · exact .inr rfl

theorem resolveDue_moves (hs : n.polls.Sound) {early : Bool} {height : UInt32}
    {r : Except PollError HeightReport} (h : n.resolveDue faults early height = (r, n')) :
    ∃ ms, n.Moves faults ms n' ∧ (∀ m ∈ ms, m.opening? = none) ∧
      (Reply.report r).resolutions = ms.filterMap Move.resolution? := by
  rcases resolveDue_cases h with ⟨e, rfl, rfl⟩ | ⟨report, n₁, rfl, heach, hdone⟩
  · -- the list of the polls is not to be had
    exact ⟨_, .single (step_asked n _), List.forall_mem_singleton.2 rfl, rfl⟩
  · obtain ⟨ms, hmoves, hopenings, hresolved⟩ := resolveEach_moves (n := n.tick) hs heach
    rcases hdone with rfl | rfl
    · -- no poll was due, and nothing is written
      refine ⟨_, .cons (step_asked n _) hmoves, List.forall_mem_cons.2 ⟨rfl, hopenings⟩, ?_⟩
      rw [List.filterMap_cons_none rfl]
      exact hresolved
    · -- what was done is written into the journal
      have hdone : n₁.Step faults
          (.idle [.heightDone height report.resolved.length report.failed.length]) _ :=
        step_record n₁ rfl
      refine ⟨_, .cons (step_asked n _) (hmoves.append (.single hdone)), ?_, ?_⟩
      · intro m hm
        rcases List.mem_cons.1 hm with rfl | hm
        · rfl
        · rcases List.mem_append.1 hm with hm | hm
          · exact hopenings m hm
          · rw [List.mem_singleton.1 hm]
            rfl
      · rw [List.filterMap_cons_none rfl, List.filterMap_append, ← hresolved]
        exact (List.append_nil _).symm

/-! ### Effects -/

theorem applyAnnouncement_step {tx : Transaction} {a : Announcement} {effect : Effect}
    (h : n.applyAnnouncement faults tx a = (effect, n')) :
    ∃ m, n.Step faults m n' ∧ m.attempt? = none ∧ m.opening? = none := by
  cases applyAnnouncement_cases h with
  | idle => exact ⟨_, step_asked n _, rfl, rfl⟩
  | lost => exact ⟨_, step_noted _ rfl, rfl, rfl⟩
  | bound _ _ hbound => exact ⟨_, .bound _ hbound, rfl, rfl⟩
  | refused => exact ⟨_, step_noted _ rfl, rfl, rfl⟩

theorem applyPhasing_step {tx : Transaction} {p : Phasing} {effect : Effect}
    (h : n.applyPhasing faults tx p = (effect, n')) :
    ∃ m, n.Step faults m n' ∧ m.attempt? = none ∧
      m.opening? = opening? tx (.phasing p, effect) := by
  rcases applyPhasing_cases h with ⟨hopens, rfl, rfl⟩ | ⟨-, rfl, e, rfl⟩
  · exact ⟨.opened ⟨tx, p⟩, .opened _ hopens.pending hopens.ended, rfl, (if_pos rfl).symm⟩
  · exact ⟨_, step_noted _ rfl, rfl, rfl⟩

theorem applyAppendix_step {tx : Transaction} {a : Appendix} {effect : Effect}
    (h : n.applyAppendix faults tx a = (effect, n')) :
    ∃ m, n.Step faults m n' ∧ m.attempt? = none ∧ m.opening? = opening? tx (a, effect) := by
  cases a with
  | announcement a => exact applyAnnouncement_step h
  | phasing p => exact applyPhasing_step h
  | message | encryptedMessage | encryptToSelf =>
    cases h
    exact ⟨_, step_asked n _, rfl, rfl⟩

theorem of_applyEach_cons {tx : Transaction} {a : Appendix} {as : List Appendix} {es : List Effect}
    (h : n.applyEach faults tx (a :: as) = (es, n')) :
    ∃ effect n₁ rest, n.applyAppendix faults tx a = (effect, n₁) ∧
      n₁.applyEach faults tx as = (rest, n') ∧ es = effect :: rest := by
  unfold applyEach at h
  split at h
  next effect n₁ happly =>
  split at h
  next rest n₂ hrest =>
  cases h
  exact ⟨effect, n₁, rest, happly, hrest, rfl⟩

theorem applyEach_moves {tx : Transaction} {as : List Appendix} {es : List Effect}
    (h : n.applyEach faults tx as = (es, n')) :
    ∃ ms, n.Moves faults ms n' ∧ (∀ m ∈ ms, m.attempt? = none) ∧
      (as.zip es).filterMap (opening? tx) = ms.filterMap Move.opening? := by
  induction as generalizing n es with
  | nil =>
    cases h
    exact ⟨[], .nil _, List.forall_mem_nil _, rfl⟩
  | cons a as ih =>
    obtain ⟨effect, n₁, rest, happly, hrest, rfl⟩ := of_applyEach_cons h
    obtain ⟨m, hstep, hattempt, hopening⟩ := applyAppendix_step happly
    obtain ⟨ms, hmoves, hattempts, hopenings⟩ := ih hrest
    refine ⟨m :: ms, .cons hstep hmoves, List.forall_mem_cons.2 ⟨hattempt, hattempts⟩, ?_⟩
    rw [List.zip_cons_cons, List.filterMap_cons, List.filterMap_cons, hopening, hopenings]

/-! ### Calls -/

theorem parseBytes_cases {limits : Limits} {flags : UInt32} {data : List UInt8} {version : UInt8}
    {r : Except AppendixError AppendixSet}
    (h : n.parseBytes limits flags data version = (r, n')) :
    r = AppendixSet.decode flags data version limits ∧
      (n' = n ∨ ∃ e, n' = n.record (.bytesRefused flags e)) := by
  unfold parseBytes at h
  split at h
  · next hdecode =>
    cases h
    exact ⟨hdecode.symm, .inl rfl⟩
  · next e hdecode =>
    cases h
    exact ⟨hdecode.symm, .inr ⟨e, rfl⟩⟩

theorem parseObject_cases {o : Json.Object} {r : Except AppendixError AppendixSet}
    (h : n.parseObject o = (r, n')) :
    r = AppendixSet.ofObject o ∧ (n' = n ∨ ∃ e, n' = n.record (.fieldsRefused e)) := by
  unfold parseObject at h
  split at h
  · next hread =>
    cases h
    exact ⟨hread.symm, .inl rfl⟩
  · next e hread =>
    cases h
    exact ⟨hread.symm, .inr ⟨e, rfl⟩⟩

/-- A set is admitted, or the first refusal that there is goes into the journal. -/
theorem validate_cases {limits : Limits} {tx : Transaction} {s : AppendixSet}
    {r : Except AppendixError Unit} (h : n.validate faults limits tx s = (r, n')) :
    (s.refusal? tx limits (n.keys faults) = none ∧ r = .ok () ∧ n' = n.tick) ∨
      ∃ refusal, s.refusal? tx limits (n.keys faults) = some refusal ∧ r = .error refusal.error ∧
        n' = n.tick.record (.notAdmitted tx.id refusal) := by
  unfold validate at h
  split at h
  · next hnone =>
    cases h
    exact .inl ⟨hnone, rfl, rfl⟩
  · next refusal hrefusal =>
    cases h
    exact .inr ⟨refusal, hrefusal, rfl, rfl⟩

/-- Reading and admitting leave the ledger and the polls alone. -/
theorem parseBytes_leaves (n : Node) (limits : Limits) (flags : UInt32) (data : List UInt8)
    (version : UInt8) :
    (n.parseBytes limits flags data version).2.ledger = n.ledger ∧
      (n.parseBytes limits flags data version).2.polls = n.polls := by
  rcases parseBytes_cases (Prod.eta (n.parseBytes limits flags data version)).symm with
    ⟨-, hn | ⟨e, hn⟩⟩
  · rw [hn]
    exact ⟨rfl, rfl⟩
  · rw [hn]
    exact ⟨rfl, rfl⟩

theorem parseObject_leaves (n : Node) (o : Json.Object) :
    (n.parseObject o).2.ledger = n.ledger ∧ (n.parseObject o).2.polls = n.polls := by
  rcases parseObject_cases (Prod.eta (n.parseObject o)).symm with ⟨-, hn | ⟨e, hn⟩⟩
  · rw [hn]
    exact ⟨rfl, rfl⟩
  · rw [hn]
    exact ⟨rfl, rfl⟩

theorem validate_leaves (n : Node) (faults : Faults) (limits : Limits) (tx : Transaction)
    (s : AppendixSet) :
    (n.validate faults limits tx s).2.ledger = n.ledger ∧
      (n.validate faults limits tx s).2.polls = n.polls := by
  rcases validate_cases (Prod.eta (n.validate faults limits tx s)).symm with
    ⟨-, -, hn⟩ | ⟨refusal, -, -, hn⟩
  · rw [hn]
    exact ⟨rfl, rfl⟩
  · rw [hn]
    exact ⟨rfl, rfl⟩

theorem parseBytes_step {limits : Limits} {flags : UInt32} {data : List UInt8} {version : UInt8}
    {r : Except AppendixError AppendixSet}
    (h : n.parseBytes limits flags data version = (r, n')) :
    ∃ m, n.Step faults m n' ∧ m.opening? = none ∧ m.resolution? = none := by
  rcases parseBytes_cases h with ⟨-, rfl | ⟨e, rfl⟩⟩
  · exact ⟨_, step_asked n' n'.requests, rfl, rfl⟩
  · exact ⟨_, step_record n rfl, rfl, rfl⟩

theorem parseObject_step {o : Json.Object} {r : Except AppendixError AppendixSet}
    (h : n.parseObject o = (r, n')) :
    ∃ m, n.Step faults m n' ∧ m.opening? = none ∧ m.resolution? = none := by
  rcases parseObject_cases h with ⟨-, rfl | ⟨e, rfl⟩⟩
  · exact ⟨_, step_asked n' n'.requests, rfl, rfl⟩
  · exact ⟨_, step_record n rfl, rfl, rfl⟩

theorem validate_step {limits : Limits} {tx : Transaction} {s : AppendixSet}
    {r : Except AppendixError Unit} (h : n.validate faults limits tx s = (r, n')) :
    ∃ m, n.Step faults m n' ∧ m.opening? = none ∧ m.resolution? = none := by
  rcases validate_cases h with ⟨-, -, rfl⟩ | ⟨refusal, -, -, rfl⟩
  · exact ⟨_, step_asked n _, rfl, rfl⟩
  · exact ⟨_, step_noted _ rfl, rfl, rfl⟩

/-- Asking for the status of a poll changes nothing but the count of requests. -/
theorem of_status {id : TransactionId} {r : Except PollError PollStatus}
    (h : n.status faults id = (r, n')) : ∃ k, n' = { n with requests := k } := by
  unfold status at h
  split at h
  · next hpoll =>
    cases h
    obtain ⟨rfl, -⟩ := of_hasPoll hpoll
    exact ⟨_, rfl⟩
  · next hpoll =>
    cases h
    obtain ⟨rfl, -⟩ := of_hasPoll hpoll
    exact ⟨_, rfl⟩
  · next hpoll =>
    obtain ⟨rfl, -⟩ := of_hasPoll hpoll
    split at h <;>
      next houtcome =>
        cases h
        obtain ⟨rfl, -⟩ := of_pollOutcome (n := n.tick) houtcome
        exact ⟨_, rfl⟩

theorem status_leaves (n : Node) (faults : Faults) (id : TransactionId) :
    (n.status faults id).2.ledger = n.ledger ∧ (n.status faults id).2.polls = n.polls := by
  obtain ⟨k, hn⟩ := of_status (Prod.eta (n.status faults id)).symm
  rw [hn]
  exact ⟨rfl, rfl⟩

theorem status_step {id : TransactionId} {r : Except PollError PollStatus}
    (h : n.status faults id = (r, n')) :
    ∃ m, n.Step faults m n' ∧ m.opening? = none ∧ m.resolution? = none := by
  obtain ⟨k, rfl⟩ := of_status h
  exact ⟨_, step_asked n k, rfl, rfl⟩

/-- A call that opens no poll and reports no more than one move does. -/
theorem moves_of_step {rs : List Resolution} {m : Move} (hstep : n.Step faults m n')
    (hopening : m.opening? = none) (hresolution : rs = m.resolution?.toList) :
    ∃ ms, n.Moves faults ms n' ∧ rs = ms.filterMap Move.resolution? ∧
      [] = ms.filterMap Move.opening? ∧
      ((∀ m ∈ ms, m.opening? = none) ∨ ∀ m ∈ ms, m.attempt? = none) := by
  refine ⟨[m], .single hstep, ?_, ?_, .inl (List.forall_mem_singleton.2 hopening)⟩
  · rw [hresolution, filterMap_cons_toList]
    exact (List.append_nil _).symm
  · rw [List.filterMap_cons_none hopening]
    rfl

/-- A call is made of moves, which account for what it opens and what it resolves. -/
theorem perform_moves (hs : n.polls.Sound) {config : Config} {call : Call} {reply : Reply}
    (h : n.perform faults config call = (reply, n')) :
    ∃ ms, n.Moves faults ms n' ∧ reply.resolutions = ms.filterMap Move.resolution? ∧
      call.openings reply = ms.filterMap Move.opening? ∧
      ((∀ m ∈ ms, m.opening? = none) ∨ ∀ m ∈ ms, m.attempt? = none) := by
  cases call with
  | parseBytes flags data version =>
    cases h
    obtain ⟨m, hstep, hopening, hresolution⟩ := parseBytes_step rfl
    exact moves_of_step hstep hopening (by rw [hresolution]; rfl)
  | parseObject o =>
    cases h
    obtain ⟨m, hstep, hopening, hresolution⟩ := parseObject_step rfl
    exact moves_of_step hstep hopening (by rw [hresolution]; rfl)
  | validate tx s =>
    cases h
    obtain ⟨m, hstep, hopening, hresolution⟩ := validate_step rfl
    exact moves_of_step hstep hopening (by rw [hresolution]; rfl)
  | apply tx s =>
    cases h
    obtain ⟨ms, hmoves, hattempts, hopenings⟩ := applyEach_moves rfl
    refine ⟨ms, hmoves, ?_, hopenings, .inr hattempts⟩
    have hnone : ms.filterMap Move.resolution? = [] :=
      List.filterMap_eq_nil_iff.2 fun m hm => Move.resolution?_of_attempt? (hattempts m hm)
    rw [hnone]
    rfl
  | vote id voter height =>
    cases h
    obtain ⟨m, hstep, hopening, hresolution⟩ := vote_step hs rfl
    exact moves_of_step hstep hopening (by rw [hresolution]; rfl)
  | commit id =>
    cases h
    obtain ⟨m, hstep, hopening, hr⟩ := resolve_step hs rfl
    exact moves_of_step hstep hopening (hr ▸ Reply.resolutions_resolution _)
  | rollback id =>
    cases h
    obtain ⟨m, hstep, hopening, hr⟩ := resolve_step hs rfl
    exact moves_of_step hstep hopening (hr ▸ Reply.resolutions_resolution _)
  | resolveDue height =>
    cases h
    obtain ⟨ms, hmoves, hopenings, hresolutions⟩ := resolveDue_moves hs rfl
    refine ⟨ms, hmoves, hresolutions, ?_, .inl hopenings⟩
    rw [List.filterMap_eq_nil_iff.2 hopenings]
    rfl
  | status id =>
    cases h
    obtain ⟨m, hstep, hopening, hresolution⟩ := status_step rfl
    exact moves_of_step hstep hopening (by rw [hresolution]; rfl)

theorem of_run_cons {call : Config × Call} {calls : List (Config × Call)} {replies : List Reply}
    (h : n.run faults (call :: calls) = (replies, n')) :
    ∃ reply n₁ rest, n.perform faults call.1 call.2 = (reply, n₁) ∧
      n₁.run faults calls = (rest, n') ∧ replies = reply :: rest := by
  unfold run at h
  split at h
  next reply n₁ hperform =>
  split at h
  next rest n₂ hrest =>
  cases h
  exact ⟨reply, n₁, rest, hperform, hrest, rfl⟩

/-- So is a run. -/
theorem run_moves (hs : n.polls.Sound) {calls : List (Config × Call)} {replies : List Reply}
    (h : n.run faults calls = (replies, n')) :
    ∃ ms, n.Moves faults ms n' ∧ replies.flatMap Reply.resolutions = ms.filterMap Move.resolution? ∧
      openings calls replies = ms.filterMap Move.opening? := by
  induction calls generalizing n replies with
  | nil =>
    cases h
    exact ⟨[], .nil _, rfl, rfl⟩
  | cons call calls ih =>
    obtain ⟨reply, n₁, rest, hperform, hrest, rfl⟩ := of_run_cons h
    obtain ⟨ms, hmoves, hresolutions, hopenings, -⟩ := perform_moves hs hperform
    obtain ⟨ms', hmoves', hresolutions', hopenings'⟩ := ih (hmoves.sound hs) hrest
    refine ⟨ms ++ ms', hmoves.append hmoves', ?_, ?_⟩
    · rw [List.flatMap_cons, List.filterMap_append, hresolutions, hresolutions']
    · rw [List.filterMap_append, ← hopenings, ← hopenings']
      rfl

end Node

end LedgerAppendix
