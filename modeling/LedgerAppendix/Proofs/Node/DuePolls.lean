import LedgerAppendix.Proofs.Node.Attempt
import LedgerAppendix.Proofs.Node.Resolution
import LedgerAppendix.Proofs.Poll.Tally

/-!
# Resolving the polls that are due

At a height, a node goes through a list of the pending polls that it made in the beginning, and
resolves those that are due. Each of them is tried once, in the order of the identifiers, as if it
were alone (`Sweep`): what became of the others matters only in that their amounts count where its
own is paid. So the polls that are due are those that were resolved and those that failed, and the
ledger and the polls are what the single calls would have made of them.
-/

namespace LedgerAppendix

/-! ### Polls that are due -/

/-- The pending polls that are resolved at a height, ascending by identifier. -/
def PollStore.due (s : PollStore) (early : Bool) (height : UInt32) : List Poll :=
  s.pending.values.filter (·.EndsAt early height)

/-- What is to be credited for a poll is too much for the balance, after what some resolutions of
    polls before it have paid. -/
def Poll.Overflows (p : Poll) (l : Ledger) (rs : List Resolution) : Prop :=
  ∃ account, p.beneficiary? p.verdict = some account ∧
    UInt64.size ≤ (l.balance account).toNat +
      ((rs.filter (·.id < p.id)).map (Resolution.paid · account)).sum + p.amount.toNat

namespace Node

variable {faults : Faults} {n m n' : Node} {early : Bool} {height : UInt32}

/-! ### One poll after the other -/

/-- The polls of a list are resolved by their verdicts, one after the other. -/
inductive Sweep (faults : Faults) : Node → List Poll → HeightReport → Node → Prop
  | done (n : Node) : Sweep faults n [] .empty n
  | resolved {n n₁ n' : Node} {p : Poll} {ps : List Poll} {report : HeightReport}
    (hend : n.CanEnd faults p.id p.verdict) (hpending : n.polls.pending.get? p.id = some p)
    (hpaid : n.ledger.pay (p.beneficiary? p.verdict) p.amount = .ok n₁.ledger)
    (hpolls : n₁.polls = n.polls.finish p.id p.verdict) (hrest : Sweep faults n₁ ps report n') :
    Sweep faults n (p :: ps)
      { report with resolved := p.resolution p.verdict :: report.resolved } n'
  | failed {n n₁ n' : Node} {p : Poll} {ps : List Poll} {report : HeightReport} {e : PollError}
    (hend : ¬n.CanEnd faults p.id p.verdict) (hpending : n.polls.pending.get? p.id = some p)
    (hledger : n₁.ledger = n.ledger) (hpolls : n₁.polls = n.polls)
    (hrest : Sweep faults n₁ ps report n') :
    Sweep faults n (p :: ps) { report with failed := (p.id, e) :: report.failed } n'

/-- The first poll of a list is not due, or it is ended by its verdict, or that fails. -/
theorem resolveEach_due_cases {p : Poll} {ps : List Poll} {report : HeightReport}
    (h : n.resolveEach faults early height (p :: ps) = (report, n')) :
    (¬p.EndsAt early height ∧ n.resolveEach faults early height ps = (report, n')) ∨
    (p.EndsAt early height ∧ ∃ r n₁ rest, n.resolve faults p.id p.verdict = (.ok r, n₁) ∧
      n₁.resolveEach faults early height ps = (rest, n') ∧
      report = { rest with resolved := r :: rest.resolved }) ∨
    (p.EndsAt early height ∧ ∃ e n₁ rest, n.resolve faults p.id p.verdict = (.error e, n₁) ∧
      (n₁.record (.pollLeft p.id height e)).resolveEach faults early height ps = (rest, n') ∧
      report = { rest with failed := (p.id, e) :: rest.failed }) := by
  rcases resolveEach_cons_cases h with ⟨hdecided, hrest⟩ |
    ⟨outcome, r, n₁, rest, hdecided, hanswer⟩ | ⟨outcome, e, n₁, rest, hdecided, hanswer⟩
  · exact .inl ⟨Poll.decision?_eq_none_iff.1 hdecided, hrest⟩
  · obtain ⟨hdue, rfl⟩ := Poll.decision?_eq_some_iff.1 hdecided
    exact .inr (.inl ⟨hdue, r, n₁, rest, hanswer⟩)
  · obtain ⟨hdue, rfl⟩ := Poll.decision?_eq_some_iff.1 hdecided
    exact .inr (.inr ⟨hdue, e, n₁, rest, hanswer⟩)

theorem resolveEach_sweep (hkept : ∀ k, faults.store k .reinstate = none) {ps : List Poll}
    {report : HeightReport} (hs : n.polls.Sound)
    (hpending : ∀ p ∈ ps, n.polls.pending.get? p.id = some p)
    (hascending : ps.Pairwise fun p q => p.id < q.id)
    (h : n.resolveEach faults early height ps = (report, n')) :
    n.Sweep faults (ps.filter (·.EndsAt early height)) report n' := by
  induction ps generalizing n report with
  | nil =>
    cases h
    exact .done _
  | cons p ps ih =>
    obtain ⟨hp, hpending⟩ := List.forall_mem_cons.1 hpending
    obtain ⟨habove, hascending⟩ := List.pairwise_cons.1 hascending
    rcases resolveEach_due_cases h with ⟨hdue, hrest⟩ |
      ⟨hdue, r, n₁, rest, hresolve, hrest, rfl⟩ | ⟨hdue, e, n₁, rest, hresolve, hrest, rfl⟩
    · -- the poll is not due
      rw [List.filter_cons_of_neg (by simpa using hdue)]
      exact ih hs hpending hascending hrest
    · -- the poll ends
      rw [List.filter_cons_of_pos (by simpa using hdue)]
      rcases resolve_effect hs hresolve with ⟨hend, q, hq, hr, hpolls, hpaid⟩ | ⟨-, e, hr, -⟩
      · cases hr
        obtain rfl : p = q := Option.some.inj (hp.symm.trans hq)
        have hpending₁ : ∀ q ∈ ps, n₁.polls.pending.get? q.id = some q :=
          hpolls ▸ PollStore.pending_finish_of_above habove hpending _
        exact .resolved hend hp hpaid hpolls
          (ih (hpolls ▸ hs.finish _ _) hpending₁ hascending hrest)
      · cases hr
    · -- the poll cannot be ended, and stays as it is
      rw [List.filter_cons_of_pos (by simpa using hdue)]
      rcases resolve_effect hs hresolve with ⟨-, q, -, hr, -⟩ | ⟨hend, _, -, hledger, hpolls⟩
      · cases hr
      · have hpolls₁ : n₁.polls = n.polls := by
          rcases hpolls with ⟨⟨_, _, _, _, hlost⟩, -⟩ | ⟨-, hsame⟩
          · rw [hkept] at hlost
            cases hlost
          · exact hsame
        have hs₁ : n₁.polls.Sound := hpolls₁ ▸ hs
        have hpending₁ : ∀ q ∈ ps, n₁.polls.pending.get? q.id = some q := hpolls₁ ▸ hpending
        have hsweep := ih (n := n₁.record (.pollLeft p.id height e)) hs₁ hpending₁ hascending hrest
        refine .failed hend hp ?_ ?_ hsweep
        · exact hledger
        · exact hpolls₁

/-! ### Balances without room -/

theorem canEnd_iff_not_overflows (hcredit : ∀ k, faults.ledger k .credit = none)
    (hretire : ∀ k, faults.store k .retire = none) {p : Poll}
    (hpending : n.polls.pending.get? p.id = some p) {rs : List Resolution}
    (hfirst : ∀ r ∈ rs, ¬r.id < p.id) :
    n.CanEnd faults p.id p.verdict ↔ ¬p.Overflows n.ledger rs := by
  have hnone : rs.filter (·.id < p.id) = [] := by
    apply List.filter_eq_nil_iff.2
    intro r hr
    simpa using hfirst r hr
  rw [canEnd_iff hpending]
  simp [PaymentFails, Poll.Overflows, hcredit, hretire, hnone]

/-- What was paid for a poll counts for the polls after it. -/
theorem overflows_of_paid {p q : Poll} {outcome : PollOutcome}
    (hpaid : n.ledger.pay (p.beneficiary? outcome) p.amount = .ok m.ledger) (hlt : p.id < q.id)
    (rs : List Resolution) :
    q.Overflows m.ledger rs ↔ q.Overflows n.ledger (p.resolution outcome :: rs) := by
  have hcons : (p.resolution outcome :: rs).filter (·.id < q.id) =
      p.resolution outcome :: rs.filter (·.id < q.id) :=
    List.filter_cons_of_pos (decide_eq_true hlt)
  unfold Poll.Overflows
  simp only [hcons, List.map_cons, List.sum_cons, Ledger.balance_pay hpaid, ← Nat.add_assoc]
  rfl

namespace Sweep

variable {ps : List Poll} {report : HeightReport}

theorem resolved_sublist (h : n.Sweep faults ps report n') :
    report.resolved.Sublist (ps.map fun p => p.resolution p.verdict) := by
  induction h with
  | done => exact .slnil
  | resolved _ _ _ _ _ ih => exact ih.cons_cons _
  | failed _ _ _ _ _ ih => exact ih.cons _

theorem resolved_ids_sublist (h : n.Sweep faults ps report n') :
    (report.resolved.map (·.id)).Sublist (ps.map (·.id)) := by
  have hsub := h.resolved_sublist.map (·.id)
  rwa [List.map_map] at hsub

theorem failed_sublist (h : n.Sweep faults ps report n') :
    (report.failed.map (·.1)).Sublist (ps.map (·.id)) := by
  induction h with
  | done => exact .slnil
  | resolved _ _ _ _ _ ih => exact ih.cons _
  | failed _ _ _ _ _ ih => exact ih.cons_cons _

theorem perm (h : n.Sweep faults ps report n') :
    (report.resolved.map (·.id) ++ report.failed.map (·.1)).Perm (ps.map (·.id)) := by
  induction h with
  | done => exact .rfl
  | resolved _ _ _ _ _ ih => exact ih.cons _
  | failed _ _ _ _ _ ih => exact List.perm_middle.trans (ih.cons _)

theorem disjoint (h : n.Sweep faults ps report n') (hnodup : (ps.map (·.id)).Nodup)
    {r : Resolution} (hr : r ∈ report.resolved) : r.id ∉ report.failed.map (·.1) := by
  intro hfailed
  have hboth := List.nodup_append.1 (h.perm.nodup_iff.2 hnodup)
  exact hboth.2.2 r.id (List.mem_map_of_mem hr) r.id hfailed rfl

theorem untouched (h : n.Sweep faults ps report n') {id : TransactionId}
    (hid : id ∉ report.resolved.map (·.id)) :
    n'.polls.pending.get? id = n.polls.pending.get? id ∧
      n'.polls.outcomes.get? id = n.polls.outcomes.get? id := by
  induction h with
  | done => exact ⟨rfl, rfl⟩
  | @resolved n n₁ _ p _ _ _ _ _ hpolls _ ih =>
    obtain ⟨hne, hid⟩ := not_or.1 (mt List.mem_cons.2 hid)
    obtain ⟨hpending, houtcome⟩ := ih hid
    rw [hpending, houtcome, hpolls, PollStore.pending_finish, PollStore.outcomes_finish]
    exact ⟨if_neg (Ne.symm hne), if_neg (Ne.symm hne)⟩
  | failed _ _ _ hpolls _ ih =>
    rw [← hpolls]
    exact ih hid

theorem ended (h : n.Sweep faults ps report n') (hnodup : (ps.map (·.id)).Nodup) {r : Resolution}
    (hr : r ∈ report.resolved) : n'.polls.outcomes.get? r.id = some r.outcome := by
  induction h with
  | done => cases hr
  | @resolved n n₁ n' p _ rest _ _ _ hpolls hrest ih =>
    obtain ⟨hp, hnodup⟩ := List.nodup_cons.1 hnodup
    rcases List.mem_cons.1 hr with rfl | hr
    · have hgone : p.id ∉ rest.resolved.map (·.id) :=
        fun hmem => hp (hrest.perm.mem_iff.1 (List.mem_append_left _ hmem))
      show n'.polls.outcomes.get? p.id = some p.verdict
      rw [(hrest.untouched hgone).2, hpolls]
      exact (PollStore.outcomes_finish ..).trans (if_pos rfl)
    · exact ih hnodup hr
  | failed _ _ _ _ _ ih => exact ih (List.nodup_cons.1 hnodup).2 hr

theorem above (h : n.Sweep faults ps report n') {id : TransactionId} (hid : ∀ p ∈ ps, id < p.id) :
    (∀ r ∈ report.resolved, id < r.id) ∧ id ∉ report.failed.map (·.1) := by
  constructor
  · intro r hr
    obtain ⟨p, hp, rfl⟩ := List.mem_map.1 (h.resolved_sublist.subset hr)
    exact hid p hp
  · intro hmem
    obtain ⟨p, hp, heq⟩ := List.mem_map.1 (h.failed_sublist.subset hmem)
    exact UInt64.ne_of_lt (hid p hp) heq.symm

/-- Where no request is lost that pays an amount or retires a poll, a poll fails just if its amount
    is too much for the balance. -/
theorem failed_iff (h : n.Sweep faults ps report n')
    (hascending : ps.Pairwise fun p q => p.id < q.id)
    (hcredit : ∀ k, faults.ledger k .credit = none) (hretire : ∀ k, faults.store k .retire = none)
    {p : Poll} (hp : p ∈ ps) :
    p.id ∈ report.failed.map (·.1) ↔ p.Overflows n.ledger report.resolved := by
  induction h with
  | done => cases hp
  | @resolved n n₁ n' q ps rest hend hpending hpaid _ hrest ih =>
    obtain ⟨habove, hascending⟩ := List.pairwise_cons.1 hascending
    obtain ⟨hlater, hgone⟩ := hrest.above habove
    -- for the first of the list nothing was paid before, and for the others its amount was
    rcases List.mem_cons.1 hp with rfl | hp
    · -- the first poll has come to an end
      have hfirst : ∀ r ∈ p.resolution p.verdict :: rest.resolved, ¬r.id < p.id := by
        intro r hr
        rcases List.mem_cons.1 hr with rfl | hr
        · exact UInt64.lt_irrefl p.id
        · exact UInt64.lt_asymm (hlater r hr)
      have hroom := (canEnd_iff_not_overflows hcredit hretire hpending hfirst).1 hend
      exact ⟨fun hfailed => absurd hfailed hgone, fun hover => absurd hover hroom⟩
    · -- a later one: what was paid for the first counts among what was paid before it
      rw [ih hascending hp]
      exact overflows_of_paid hpaid (habove p hp) rest.resolved
  | @failed n n₁ n' q ps rest e hend hpending hledger _ hrest ih =>
    obtain ⟨habove, hascending⟩ := List.pairwise_cons.1 hascending
    rcases List.mem_cons.1 hp with rfl | hp
    · -- the first poll has failed
      have hfirst : ∀ r ∈ rest.resolved, ¬r.id < p.id :=
        fun r hr => UInt64.lt_asymm ((hrest.above habove).1 r hr)
      have hover := mt (canEnd_iff_not_overflows hcredit hretire hpending hfirst).2 hend
      exact ⟨fun _ => not_not.1 hover, fun _ => List.mem_cons_self⟩
    · -- a later one
      rw [List.map_cons, List.mem_cons, ← hledger, ← ih hascending hp]
      exact or_iff_right (UInt64.ne_of_lt (habove p hp)).symm

end Sweep

/-- The same is done by single calls that end each poll of the list by its verdict. -/
theorem resolveEach_one_by_one (config : Config) {ps : List Poll} {report : HeightReport}
    (hm : n.Alike m) (h : n.resolveEach faults early height ps = (report, n')) :
    ∃ replies m', m.run faults ((ps.filter (·.EndsAt early height)).map
        fun p => (config, .ending p.id p.verdict)) = (replies, m') ∧
      n'.Alike m' ∧ replies.flatMap Reply.resolutions = report.resolved := by
  induction ps generalizing n m report with
  | nil =>
    cases h
    exact ⟨[], m, rfl, hm, rfl⟩
  | cons p ps ih =>
    obtain ⟨answer, n₂, m₁, hn, hm₁, hafter⟩ := hm.resolve faults p.id p.verdict
    rcases resolveEach_due_cases h with ⟨hdue, hrest⟩ |
      ⟨hdue, r, n₁, rest, hresolve, hrest, rfl⟩ | ⟨hdue, e, n₁, rest, hresolve, hrest, rfl⟩
    · -- the poll is not due, and is not among the single calls
      rw [List.filter_cons_of_neg (by simpa using hdue)]
      exact ih hm hrest
    · -- the poll ends by either way
      cases hresolve.symm.trans hn
      obtain ⟨replies, m', hrun, hlast, hresolved⟩ := ih hafter hrest
      rw [List.filter_cons_of_pos (by simpa using hdue), List.map_cons, run, perform_ending, hm₁]
      dsimp only
      rw [hrun]
      exact ⟨_, _, rfl, hlast, congrArg (r :: ·) hresolved⟩
    · -- the poll is left by either way, which is noted in the one only
      cases hresolve.symm.trans hn
      obtain ⟨replies, m', hrun, hlast, hresolved⟩ :=
        ih ((alike_record _ _).symm.trans hafter) hrest
      rw [List.filter_cons_of_pos (by simpa using hdue), List.map_cons, run, perform_ending, hm₁]
      dsimp only
      rw [hrun]
      exact ⟨_, _, rfl, hlast, hresolved⟩

/-! ### The whole height -/

/-- A report says what became of the polls that were due at a height, one after the other. -/
structure Settles (n : Node) (faults : Faults) (config : Config) (height : UInt32)
    (report : HeightReport) (n' : Node) : Prop where
  due_ascending : ((n.polls.due config.resolveEarly height).map (·.id)).Pairwise (· < ·)
  resolved_ascending : (report.resolved.map (·.id)).Pairwise (· < ·)
  failed_ascending : (report.failed.map (·.1)).Pairwise (· < ·)
  disjoint : ∀ r ∈ report.resolved, r.id ∉ report.failed.map (·.1)
  due : ∀ id, (id ∈ report.resolved.map (·.id) ∨ id ∈ report.failed.map (·.1)) ↔
    ∃ p ∈ n.polls.due config.resolveEarly height, p.id = id
  /-- A poll that was resolved has ended by its verdict. -/
  resolved : ∀ r ∈ report.resolved, ∃ p ∈ n.polls.due config.resolveEarly height,
    r = p.resolution p.verdict ∧ n'.polls.outcomes.get? p.id = some p.verdict ∧
      n'.polls.pending.get? p.id = none
  /-- Any other poll is as it was. -/
  untouched : ∀ id, id ∉ report.resolved.map (·.id) →
    n'.polls.pending.get? id = n.polls.pending.get? id ∧
      n'.polls.outcomes.get? id = n.polls.outcomes.get? id
  /-- Single calls, made after the request for the list, make the same of the ledger and the polls,
      and report the same resolutions. -/
  one_by_one : ∃ replies m, n.tick.run faults ((n.polls.due config.resolveEarly height).map
      fun p => (config, .ending p.id p.verdict)) = (replies, m) ∧
    n'.ledger = m.ledger ∧ n'.polls = m.polls ∧
    replies.flatMap Reply.resolutions = report.resolved
  /-- If no request is lost that matters, what fails are the payments without room. -/
  failed_iff : (∀ k, faults.ledger k .credit = none) → (∀ k, faults.store k .retire = none) →
    ∀ p ∈ n.polls.due config.resolveEarly height,
      p.id ∈ report.failed.map (·.1) ↔ p.Overflows n.ledger report.resolved

theorem resolveDue_of_lost {reason : String} (hlost : faults.store n.requests .list = some reason)
    (early : Bool) (height : UInt32) :
    n.resolveDue faults early height =
      (.error (.storage (.unavailable (.backend reason))), n.tick) := by
  rw [resolveDue, pendingPolls, askStore_of_lost hlost]

theorem resolveDue_of_listed (hs : n.polls.Sound) (hlisted : faults.store n.requests .list = none)
    (early : Bool) (height : UInt32) :
    ∃ report n₁ n', n.tick.resolveEach faults early height n.polls.pending.values = (report, n₁) ∧
      n.resolveDue faults early height = (.ok report, n') ∧ n₁.Alike n' := by
  have hlist := pendingPolls_of_kept hs hlisted
  refine ⟨_, _, (n.resolveDue faults early height).2, (Prod.eta _).symm, ?_, ?_⟩
  · rw [resolveDue, hlist]
  · rw [resolveDue, hlist]
    dsimp only
    split
    · exact Alike.refl _
    · exact alike_record _ _

theorem settles_of_resolveEach (hn : n.polls.Sound) (hm : m.polls.Sound)
    (hkept : ∀ k, faults.store k .reinstate = none) {config : Config} {report : HeightReport}
    (h : n.tick.resolveEach faults config.resolveEarly height n.polls.pending.values =
      (report, m)) :
    n.Settles faults config height report m := by
  have hlisted : ∀ p ∈ n.polls.pending.values, n.polls.pending.get? p.id = some p :=
    fun p hp => hn.mem_values.1 hp
  have hsweep : n.tick.Sweep faults (n.polls.due config.resolveEarly height) report m :=
    resolveEach_sweep (n := n.tick) hkept hn hlisted hn.ascending_values h
  have hdue : (n.polls.due config.resolveEarly height).Pairwise fun p q => p.id < q.id :=
    hn.ascending_values.filter _
  have hids : ((n.polls.due config.resolveEarly height).map (·.id)).Pairwise (· < ·) :=
    List.pairwise_map.2 hdue
  have hnodup : ((n.polls.due config.resolveEarly height).map (·.id)).Nodup :=
    hids.imp UInt64.ne_of_lt
  constructor
  case due_ascending => exact hids
  case resolved_ascending => exact hids.sublist hsweep.resolved_ids_sublist
  case failed_ascending => exact hids.sublist hsweep.failed_sublist
  case disjoint => exact fun _ hr => hsweep.disjoint hnodup hr
  case due =>
    intro id
    rw [← List.mem_append, hsweep.perm.mem_iff, List.mem_map]
  case resolved =>
    intro r hr
    obtain ⟨p, hp, rfl⟩ := List.mem_map.1 (hsweep.resolved_sublist.subset hr)
    have hended := hsweep.ended hnodup hr
    exact ⟨p, hp, rfl, hended, hm.not_pending hended⟩
  case untouched => exact fun id hid => hsweep.untouched hid
  case one_by_one =>
    obtain ⟨replies, m', hrun, ⟨j, rfl⟩, hreplies⟩ :=
      resolveEach_one_by_one config (Alike.refl n.tick) h
    exact ⟨replies, _, hrun, rfl, rfl, hreplies⟩
  case failed_iff => exact fun hcredit hretire p hp => hsweep.failed_iff hdue hcredit hretire hp

/-- Writing into the journal does not unsettle a height. -/
theorem Settles.alike {config : Config} {report : HeightReport}
    (h : n.Settles faults config height report m) (hm : m.Alike n') :
    n.Settles faults config height report n' := by
  obtain ⟨j, rfl⟩ := hm
  exact { h with }

/-- Unless its list is lost, in which case nothing changes, a height settles the polls that are due
    there, however many of the other requests are lost, as long as polls can be reinstated. -/
theorem resolveDue_settles (hn : n.Reachable) (hkept : ∀ k, faults.store k .reinstate = none)
    {config : Config} {reply : Reply}
    (h : n.perform faults config (.resolveDue height) = (reply, n')) :
    ((faults.store n.requests .list).isSome ∧ (∃ e, reply = .report (.error e)) ∧
        n'.ledger = n.ledger ∧ n'.polls = n.polls) ∨
      (faults.store n.requests .list = none ∧
        ∃ report, reply = .report (.ok report) ∧ n.Settles faults config height report n') := by
  have hs' := (hn.called h).sound
  have hperform : (Reply.report (n.resolveDue faults config.resolveEarly height).1,
      (n.resolveDue faults config.resolveEarly height).2) = (reply, n') := h
  cases hlist : faults.store n.requests .list with
  | some reason =>
    rw [resolveDue_of_lost hlist] at hperform
    cases hperform
    exact .inl ⟨rfl, ⟨_, rfl⟩, rfl, rfl⟩
  | none =>
    obtain ⟨report, m, n₁, heach, hanswer, halike⟩ :=
      resolveDue_of_listed hn.sound hlist config.resolveEarly height
    rw [hanswer] at hperform
    cases hperform
    have hm : m.polls.Sound := by
      obtain ⟨j, rfl⟩ := halike
      exact hs'
    exact .inr ⟨rfl, report, rfl, (settles_of_resolveEach hn.sound hm hkept heach).alike halike⟩

/-- Two payments that have their votes. There is room for either, but not for both. -/
def narrowNode : Node :=
  ((ofLedger (Ledger.empty.setBalance 2 (maxWord - 12))).run .none
    [(.standard, phasedPayment 8 1 (some 2) 5), (.standard, phasedPayment 7 1 (some 2) 10),
      (.standard, .vote 7 3 150), (.standard, .vote 8 3 150)]).2

/-- What a height makes of them. -/
def narrowReport : HeightReport :=
  ⟨[⟨7, .approved, some 2, 10⟩], [(8, .ledger (.balanceOverflow 2))]⟩

/-- The one with the smaller identifier is made, although it was opened later, and the other one
    stays pending. -/
theorem resolveDue_settles_narrow :
    (∀ k, Faults.none.store k .reinstate = none) ∧
      (narrowNode.perform .none .standard (.resolveDue 200)).1 = .report (.ok narrowReport) ∧
      (∃ p ∈ narrowNode.polls.due Config.standard.resolveEarly 200,
        p.id = 8 ∧ p.Overflows narrowNode.ledger narrowReport.resolved) ∧
      (narrowNode.perform .none .standard (.resolveDue 200)).2.polls.pending.get? 8 =
        narrowNode.polls.pending.get? 8 := by
  have hkept : ∀ k, Faults.none.store k .reinstate = none := fun _ => rfl
  have hreached : narrowNode.Reachable := (Reachable.start _).run (Prod.eta _).symm
  have hanswer : (narrowNode.perform .none .standard (.resolveDue 200)).1 =
      .report (.ok narrowReport) := by rfl
  rcases resolveDue_settles hreached hkept (Prod.eta _).symm with
    ⟨hlost, -⟩ | ⟨-, report, hreply, hsettles⟩
  · cases hlost
  · rw [hanswer] at hreply
    cases hreply
    have hfailed : 8 ∈ narrowReport.failed.map (·.1) := by decide
    obtain ⟨p, hp, hid⟩ := (hsettles.due 8).1 (.inr hfailed)
    have hover := hsettles.failed_iff (fun _ => rfl) (fun _ => rfl) p hp
    rw [hid] at hover
    refine ⟨hkept, hanswer, ⟨p, hp, hid, hover.1 hfailed⟩, ?_⟩
    exact (hsettles.untouched 8 (by decide)).1

end Node

end LedgerAppendix
