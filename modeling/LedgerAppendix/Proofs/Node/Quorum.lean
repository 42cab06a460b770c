import LedgerAppendix.Proofs.Node.Resolution
import LedgerAppendix.Proofs.Poll.Ballot

/-!
# Polls are decided by their ballots

Unless a caller ends a poll at will, it is approved only if the ballots on it, taken in the run so
far, reach the quorum that it was opened with, and rejected only at its last height, if they do not.
The sum that counts is the exact one.
-/

namespace LedgerAppendix

/-- The ballot that a vote leaves, if it was taken. -/
def ballot? (l : Ledger) : Call → Reply → Option Ballot
  | .vote id voter height, .tally (.ok _) => some ⟨id, voter, height, l⟩
  | _, _ => none

/-- The caller ends a poll at will. -/
def Call.isManual : Call → Bool
  | .commit _ | .rollback _ => true
  | _ => false

theorem Poll.isEligible_iff {p : Poll} {voter : AccountId} :
    p.isEligible voter = true ↔ p.voters = [] ∨ voter ∈ p.voters := by
  simp [isEligible]

/-- Nothing but the weight can be wrong with a vote that is in time and comes from an account that
    may vote and has not voted. -/
theorem Poll.voteRefusal?_eq_none_iff {p : Poll} {voter : AccountId} {height : UInt32} :
    p.voteRefusal? voter height = none ↔
      height ≤ p.maxHeight ∧ (p.voters = [] ∨ voter ∈ p.voters) ∧ p.votes.get? voter = none := by
  constructor
  · intro h
    unfold voteRefusal? at h
    split_ifs at h with hlate hstranger hvoted
    refine ⟨UInt32.not_lt.1 hlate, isEligible_iff.1 ?_, Table.contains_eq_false_iff.1 ?_⟩
    · simpa using hstranger
    · exact Bool.not_eq_true _ ▸ hvoted
  · rintro ⟨hintime, heligible, hnew⟩
    have hfresh : p.hasVoted voter = false := Table.contains_eq_false_iff.2 hnew
    simp [voteRefusal?, UInt32.not_lt.2 hintime, isEligible_iff.2 heligible, hfresh]

namespace Node

variable {faults : Faults} {n n' : Node} {os : List Opening} {bs : List Ballot}

/-- The ballots that are taken by some calls, made one after the other. -/
def ballots (n : Node) (faults : Faults) : List (Config × Call) → List Ballot
  | [] => []
  | (config, call) :: calls =>
    match n.perform faults config call with
    | (reply, n') => (ballot? n.ledger call reply).toList ++ n'.ballots faults calls

/-! ### Votes -/

theorem of_voteWeight_ok {p : Poll} {voter : AccountId} {weight : UInt64}
    (h : (n.voteWeight faults p voter).1 = .ok weight) {o : Opening}
    (ho : p = { o.poll with votes := p.votes }) :
    weight = o.phasing.weighting.weigh n.ledger voter := by
  have hmodel : p.model = o.phasing.weighting.model := congrArg Poll.model ho
  have hasset : p.assetId = o.phasing.weighting.assetId := congrArg Poll.assetId ho
  unfold voteWeight at h
  rw [hmodel, hasset] at h
  cases hw : o.phasing.weighting with
  | account =>
    rw [hw] at h
    exact (Except.ok.inj h).symm
  | balance =>
    rw [hw] at h
    exact ((of_askLedger (·.balance voter) (Prod.eta _).symm).2 weight h).symm
  | asset id =>
    rw [hw] at h
    exact ((of_askLedger (·.assetBalance voter id) (Prod.eta _).symm).2 weight h).symm

theorem vote_counts (hs : n.polls.Sound) (hc : n.polls.Counts os bs) {id : TransactionId}
    {voter : AccountId} {height : UInt32} {r : Except PollError UInt64}
    (h : n.vote faults id voter height = (r, n')) :
    n'.polls.Counts os (bs ++ (ballot? n.ledger (.vote id voter height) (.tally r)).toList) ∧
      n'.polls.outcomes = n.polls.outcomes := by
  rcases vote_cases h with ⟨e, k, rfl, rfl⟩ |
    ⟨p, weight, hpending, htaken, hweight, hheavy, ⟨tally, rfl⟩, k, rfl⟩
  · have hnone : bs ++ (ballot? n.ledger (.vote id voter height) (.tally (.error e))).toList = bs :=
      List.append_nil bs
    rw [hnone]
    exact ⟨hc, rfl⟩
  · obtain rfl := hs.id_of_pending hpending
    obtain ⟨hintime, heligible, hnew⟩ := Poll.voteRefusal?_eq_none_iff.1 htaken
    refine ⟨hc.put_vote (b := ⟨p.id, voter, height, n.ledger⟩) hpending rfl hnew ?_, rfl⟩
    intro o ho
    obtain rfl := of_voteWeight_ok hweight ho
    rw [ho] at hintime heligible hheavy
    exact ⟨⟨heligible, hintime, hheavy⟩, rfl⟩

/-! ### Openings -/

theorem polls_applyAnnouncement (n : Node) (faults : Faults) (tx : Transaction) (a : Announcement) :
    (n.applyAnnouncement faults tx a).2.polls = n.polls :=
  (applyAnnouncement_cases (Prod.eta _).symm).polls

theorem applyAppendix_polls {tx : Transaction} {a : Appendix} {effect : Effect}
    (h : n.applyAppendix faults tx a = (effect, n')) :
    (opening? tx (a, effect) = none ∧ n'.polls = n.polls) ∨
      ∃ o, opening? tx (a, effect) = some o ∧ n.polls.pending.get? o.tx.id = none ∧
        n.polls.outcomes.get? o.tx.id = none ∧ n'.polls = n.polls.put o.poll := by
  cases a with
  | message | encryptedMessage | encryptToSelf =>
    cases h
    exact .inl ⟨rfl, rfl⟩
  | announcement a =>
    have hsame := polls_applyAnnouncement n faults tx a
    have happly : n.applyAnnouncement faults tx a = (effect, n') := h
    rw [happly] at hsame
    exact .inl ⟨rfl, hsame⟩
  | phasing p =>
    rcases applyPhasing_cases h with ⟨hopens, rfl, rfl⟩ | ⟨-, rfl, e, rfl⟩
    · exact .inr ⟨⟨tx, p⟩, if_pos rfl, hopens.pending, hopens.ended, rfl⟩
    · exact .inl ⟨rfl, rfl⟩

theorem applyEach_counts {tx : Transaction} {as : List Appendix} {es : List Effect}
    (hc : n.polls.Counts os bs) (h : n.applyEach faults tx as = (es, n')) :
    n'.polls.Counts (os ++ (as.zip es).filterMap (opening? tx)) bs ∧
      n'.polls.outcomes = n.polls.outcomes := by
  induction as generalizing n es os with
  | nil =>
    cases h
    exact ⟨(List.append_nil os).symm ▸ hc, rfl⟩
  | cons a as ih =>
    obtain ⟨effect, n₁, rest, happly, hrest, rfl⟩ := of_applyEach_cons h
    rw [List.zip_cons_cons]
    rcases applyAppendix_polls happly with ⟨hnone, hsame⟩ | ⟨o, ho, hpending, hended, hput⟩
    · rw [List.filterMap_cons_none hnone, ← hsame]
      exact ih (hsame ▸ hc) hrest
    · have hcounts : n₁.polls.Counts (os ++ [o]) bs := hput ▸ hc.put_new hpending hended
      have houtcomes : n₁.polls.outcomes = n.polls.outcomes := by
        rw [hput]
        rfl
      rw [List.filterMap_cons_some ho, List.append_cons, ← houtcomes]
      exact ih hcounts hrest

/-! ### Resolutions -/

theorem resolve_counts (hs : n.polls.Sound) (hc : n.polls.Counts os bs) {id : TransactionId}
    {outcome : PollOutcome} {r : Except PollError Resolution}
    (h : n.resolve faults id outcome = (r, n')) :
    n'.polls.Sound ∧ n'.polls.Counts os bs ∧
      ∀ j, n'.polls.outcomes.get? j = n.polls.outcomes.get? j ∨
        id = j ∧ n'.polls.outcomes.get? j = some outcome := by
  have hended : n'.polls = n.polls.finish id outcome ∨ n'.polls = n.polls := by
    rcases resolve_effect hs h with ⟨-, p, -, -, hpolls, -⟩ | ⟨-, e, -, -, hpolls⟩
    · exact .inl hpolls
    · exact hpolls.imp And.right And.right
  rcases hended with hpolls | hpolls
  · -- the poll ends, whether its amount is paid or stranded
    rw [hpolls]
    refine ⟨hs.finish _ _, hc.finish _ _, fun j => ?_⟩
    rw [PollStore.outcomes_finish]
    split
    · next hid => exact .inr ⟨hid, rfl⟩
    · exact .inl rfl
  · -- the polls are as they were
    rw [hpolls]
    exact ⟨hs, hc, fun _ => .inl rfl⟩

/-- Between two stores, no outcome changes but those of some polls, by what was decided about
    them. -/
def DecidedAmong (ps : List Poll) (early : Bool) (height : UInt32) (s s' : PollStore) : Prop :=
  ∀ j, s'.outcomes.get? j = s.outcomes.get? j ∨
    ∃ p ∈ ps, p.id = j ∧ p.decision? early height = s'.outcomes.get? j

theorem DecidedAmong.skip {ps : List Poll} {early : Bool} {height : UInt32} {s s' : PollStore}
    (h : DecidedAmong ps early height s s') (p : Poll) :
    DecidedAmong (p :: ps) early height s s' := by
  intro j
  refine (h j).imp_right ?_
  rintro ⟨q, hq, hdecided⟩
  exact ⟨q, List.mem_cons_of_mem _ hq, hdecided⟩

theorem DecidedAmong.attempt {ps : List Poll} {early : Bool} {height : UInt32}
    {s s₁ s' : PollStore} {p : Poll} {outcome : PollOutcome}
    (hdecided : p.decision? early height = some outcome)
    (hfirst : ∀ j, s₁.outcomes.get? j = s.outcomes.get? j ∨
      p.id = j ∧ s₁.outcomes.get? j = some outcome)
    (hrest : DecidedAmong ps early height s₁ s') : DecidedAmong (p :: ps) early height s s' := by
  intro j
  rcases hrest j with hsame | ⟨q, hq, hlater⟩
  · rw [hsame]
    refine (hfirst j).imp_right ?_
    rintro ⟨hid, hended⟩
    exact ⟨p, List.mem_cons_self, hid, hdecided.trans hended.symm⟩
  · exact .inr ⟨q, List.mem_cons_of_mem _ hq, hlater⟩

theorem resolveEach_counts {early : Bool} {height : UInt32} {ps : List Poll} {report : HeightReport}
    (hs : n.polls.Sound) (hc : n.polls.Counts os bs)
    (h : n.resolveEach faults early height ps = (report, n')) :
    n'.polls.Counts os bs ∧ DecidedAmong ps early height n.polls n'.polls := by
  induction ps generalizing n report with
  | nil =>
    cases h
    exact ⟨hc, fun _ => .inl rfl⟩
  | cons p ps ih =>
    rcases resolveEach_cons_cases h with ⟨-, heach⟩ |
      ⟨outcome, r, n₁, rest, hdecided, hresolve, heach, rfl⟩ |
      ⟨outcome, e, n₁, rest, hdecided, hresolve, heach, rfl⟩
    · obtain ⟨hcounts, hrest⟩ := ih hs hc heach
      exact ⟨hcounts, hrest.skip p⟩
    · obtain ⟨hs₁, hc₁, hfirst⟩ := resolve_counts hs hc hresolve
      obtain ⟨hcounts, hrest⟩ := ih hs₁ hc₁ heach
      exact ⟨hcounts, hrest.attempt hdecided hfirst⟩
    · obtain ⟨hs₁, hc₁, hfirst⟩ := resolve_counts hs hc hresolve
      obtain ⟨hcounts, hrest⟩ := ih (n := n₁.record (.pollLeft p.id height e)) hs₁ hc₁ heach
      exact ⟨hcounts, hrest.attempt hdecided hfirst⟩

theorem resolveDue_counts {early : Bool} {height : UInt32} {r : Except PollError HeightReport}
    (hs : n.polls.Sound) (hc : n.polls.Counts os bs)
    (h : n.resolveDue faults early height = (r, n')) :
    n'.polls.Counts os bs ∧ DecidedAmong n.polls.pending.values early height n.polls n'.polls := by
  rcases resolveDue_cases h with ⟨e, -, rfl⟩ | ⟨report, n₁, -, heach, hdone⟩
  · exact ⟨hc, fun _ => .inl rfl⟩
  · have hpolls : n'.polls = n₁.polls := by
      rcases hdone with rfl | rfl
      · rfl
      · rfl
    rw [hpolls]
    exact resolveEach_counts (n := n.tick) hs hc heach

/-! ### Calls -/

/-- The call changes no outcome, unless a height is asked for at which a pending poll is decided. -/
def Decides (n : Node) (config : Config) (call : Call) (n' : Node) : Prop :=
  ∀ j, n'.polls.outcomes.get? j = n.polls.outcomes.get? j ∨
    ∃ height p, call = .resolveDue height ∧ n.polls.pending.get? j = some p ∧
      p.decision? config.resolveEarly height = n'.polls.outcomes.get? j

theorem decides_of_outcomes {config : Config} {call : Call}
    (h : n'.polls.outcomes = n.polls.outcomes) : n.Decides config call n' :=
  fun j => .inl (congrArg (Table.get? · j) h)

/-- A call keeps to the ballots, with the one that it takes, if any, and unless it is to end a poll
    at will, it leaves the outcomes to the decisions. -/
theorem perform_counts (hs : n.polls.Sound) (hc : n.polls.Counts os bs) {config : Config}
    {call : Call} {reply : Reply} (h : n.perform faults config call = (reply, n')) :
    n'.polls.Counts (os ++ call.openings reply) (bs ++ (ballot? n.ledger call reply).toList) ∧
      (call.isManual = false → n.Decides config call n') := by
  have hos := (List.append_nil os).symm
  have hbs := (List.append_nil bs).symm
  have hsame : ∀ {m : Node}, m.polls = n.polls →
      m.polls.Counts (os ++ []) (bs ++ []) ∧ (call.isManual = false → n.Decides config call m) := by
    intro m hpolls
    rw [← hos, ← hbs, hpolls]
    exact ⟨hc, fun _ => decides_of_outcomes (congrArg PollStore.outcomes hpolls)⟩
  cases call with
  | parseBytes flags data version =>
    cases h
    exact hsame (parseBytes_leaves ..).2
  | parseObject o =>
    cases h
    exact hsame (parseObject_leaves ..).2
  | validate tx s =>
    cases h
    exact hsame (validate_leaves ..).2
  | status id =>
    cases h
    exact hsame (status_leaves ..).2
  | apply tx s =>
    cases h
    obtain ⟨hcounts, houtcomes⟩ :=
      applyEach_counts hc (Prod.eta (n.applyEach faults tx s.toList)).symm
    exact ⟨hbs ▸ hcounts, fun _ => decides_of_outcomes houtcomes⟩
  | vote id voter height =>
    cases h
    obtain ⟨hcounts, houtcomes⟩ :=
      vote_counts hs hc (Prod.eta (n.vote faults id voter height)).symm
    exact ⟨hos ▸ hcounts, fun _ => decides_of_outcomes houtcomes⟩
  | commit id =>
    cases h
    obtain ⟨-, hcounts, -⟩ := resolve_counts hs hc (Prod.eta (n.resolve faults id .approved)).symm
    exact ⟨hos ▸ hbs ▸ hcounts, nofun⟩
  | rollback id =>
    cases h
    obtain ⟨-, hcounts, -⟩ := resolve_counts hs hc (Prod.eta (n.resolve faults id .rejected)).symm
    exact ⟨hos ▸ hbs ▸ hcounts, nofun⟩
  | resolveDue height =>
    cases h
    obtain ⟨hcounts, hdecided⟩ :=
      resolveDue_counts hs hc (Prod.eta (n.resolveDue faults config.resolveEarly height)).symm
    refine ⟨hos ▸ hbs ▸ hcounts, fun _ j => (hdecided j).imp_right ?_⟩
    rintro ⟨p, hp, rfl, hp'⟩
    exact ⟨height, p, rfl, hs.mem_values.1 hp, hp'⟩

/-! ### Runs -/

theorem run_counts {calls : List (Config × Call)} {replies : List Reply} (hs : n.polls.Sound)
    (hc : n.polls.Counts os bs) (h : n.run faults calls = (replies, n')) :
    n'.polls.Counts (os ++ openings calls replies) (bs ++ n.ballots faults calls) := by
  induction calls generalizing n replies os bs with
  | nil =>
    cases h
    exact (List.append_nil os).symm ▸ (List.append_nil bs).symm ▸ hc
  | cons call calls ih =>
    obtain ⟨reply, n₁, rest, hperform, hrest, rfl⟩ := of_run_cons h
    obtain ⟨hc₁, -⟩ := perform_counts hs hc hperform
    obtain ⟨ms, hmoves, -⟩ := perform_moves hs hperform
    have hballots : n.ballots faults (call :: calls) =
        (ballot? n.ledger call.2 reply).toList ++ n₁.ballots faults calls := by
      rw [ballots, hperform]
    have hopenings : openings (call :: calls) (reply :: rest) =
        call.2.openings reply ++ openings calls rest := rfl
    rw [hballots, hopenings, ← List.append_assoc, ← List.append_assoc]
    exact ih (hmoves.sound hs) hc₁ hrest

/-- After any run, a call that does not end polls at will gives a poll an outcome only if polls are
    resolved at a height, and then by the ballots that were taken on it before. They are of
    different voters and keep to the terms that the poll was opened with. If it is approved, their
    weight reaches the quorum; if it is rejected, it does not, and the poll is at its last height.
-/
theorem run_quorum {ledger : Ledger} {calls : List (Config × Call)} {replies : List Reply}
    (hrun : (ofLedger ledger).run faults calls = (replies, n)) {config : Config} {call : Call}
    (hcall : call.isManual = false) {reply : Reply}
    (hperform : n.perform faults config call = (reply, n')) {id : TransactionId}
    {outcome : PollOutcome} (hbefore : n.polls.outcomes.get? id ≠ some outcome)
    (hafter : n'.polls.outcomes.get? id = some outcome) :
    ∃ height bs, call = .resolveDue height ∧
      bs = ballotsOn id ((ofLedger ledger).ballots faults calls) ∧
      ∃ o ∈ openings calls replies, o.tx.id = id ∧
        (bs.map (·.voter)).Nodup ∧ (∀ b ∈ bs, b.KeepsTo o.phasing) ∧
        (outcome = .approved → o.phasing.quorum.toNat ≤ o.phasing.support bs) ∧
        (outcome = .rejected →
          o.phasing.maxHeight ≤ height ∧ o.phasing.support bs < o.phasing.quorum.toNat) := by
  have hs := ((Reachable.start ledger).run hrun).sound
  have hc : n.polls.Counts (openings calls replies) ((ofLedger ledger).ballots faults calls) :=
    run_counts PollStore.sound_empty PollStore.counts_empty hrun
  obtain ⟨-, hdecides⟩ := perform_counts hs hc hperform
  rcases hdecides hcall id with hsame | ⟨height, p, hheight, hpending, hdecided⟩
  · exact absurd (hsame.symm.trans hafter) hbefore
  · obtain ⟨o, ho, hid, hcounts⟩ := hc.of_pending hpending
    obtain ⟨happroved, hrejected⟩ := Poll.of_decision? (hdecided.trans hafter)
    have hlast : p.maxHeight = o.phasing.maxHeight := congrArg Poll.maxHeight hcounts.terms
    rw [hcounts.quorum_le_tally_iff] at happroved hrejected
    rw [hlast, Nat.not_le] at hrejected
    exact ⟨height, _, hheight, rfl, o, ho, hid, hcounts.nodup, hcounts.keepTo, happroved, hrejected⟩

/-! ### A run -/

/-- The first payment of an amount is lost, which is the sixth request. -/
def lostPayment : Faults :=
  ⟨fun k _ => if k = 5 then some "timeout" else none, fun _ _ => none⟩

/-- A payment gets its vote, but cannot be made at its last height. -/
def delayedPayment : List (Config × Call) :=
  [phasedPayment 7 1 (some 2) 10, .vote 7 3 150, .resolveDue 200].map (.standard, ·)

def delayedNode : Node := ((ofLedger .empty).run lostPayment delayedPayment).2

/-- It is made at the next height, by the vote that was taken before. -/
theorem run_quorum_delayed :
    delayedNode.polls.outcomes.get? 7 ≠ some .approved ∧
      (delayedNode.perform lostPayment .standard (.resolveDue 201)).2.polls.outcomes.get? 7 =
        some .approved ∧
      ∃ o : Opening, o.tx.id = 7 ∧ o.phasing.quorum.toNat ≤
        o.phasing.support (ballotsOn 7 ((ofLedger .empty).ballots lostPayment delayedPayment)) := by
  have hbefore : delayedNode.polls.outcomes.get? 7 ≠ some .approved := by decide +kernel
  have hafter : (delayedNode.perform lostPayment .standard
      (.resolveDue 201)).2.polls.outcomes.get? 7 = some .approved := by decide +kernel
  have hrun := (Prod.eta ((ofLedger .empty).run lostPayment delayedPayment)).symm
  obtain ⟨height, bs, -, rfl, o, -, hid, -, -, happroved, -⟩ :=
    run_quorum hrun rfl (Prod.eta _).symm hbefore hafter
  exact ⟨hbefore, hafter, o, hid, happroved rfl⟩

end Node

end LedgerAppendix
