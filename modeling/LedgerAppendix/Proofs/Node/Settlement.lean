import LedgerAppendix.Proofs.Node.DuePolls

/-!
# A height without losses

Where no request is lost, the balances alone say what becomes of the polls that are due: an amount
is paid if there is room for it, and else the poll stays as it is. `Ledger.settle` says this without
a node, and a node does just what it says (`resolveDue_none`).

Balances only grow on the way. So what was refused is refused ever after, and some amounts can all
be paid, in whatever order, just if every balance has room for all that goes to it
(`settle_complete_iff`).
-/

namespace LedgerAppendix

/-- The end of a poll by its votes. -/
def Poll.settlement (p : Poll) : Resolution := p.resolution p.verdict

/-- What some polls pay to an account, all together, if each of them ends by its votes. -/
def owed (ps : List Poll) (a : AccountId) : Nat := (ps.map fun p => p.settlement.paid a).sum

/-! ### Payments -/

namespace Ledger

variable {l l' : Ledger} {p : Poll} {ps : List Poll}

/-- What was refused is refused by any ledger with balances no less. -/
theorem pay_eq_error_of_le (hle : ∀ a, (l.balance a).toNat ≤ (l'.balance a).toNat)
    {account? : Option AccountId} {amount : UInt64} {e : LedgerError}
    (h : l.pay account? amount = .error e) : l'.pay account? amount = .error e := by
  obtain ⟨account, haccount, he, hfull⟩ := pay_eq_error_iff.1 h
  exact pay_eq_error_iff.2
    ⟨account, haccount, he, Nat.le_trans hfull (Nat.add_le_add_right (hle account) _)⟩

/-- What a resolution pays is paid if every balance has room for it. -/
theorem exists_pay_of_room {r : Resolution}
    (hroom : ∀ a, (l.balance a).toNat + r.paid a < UInt64.size) :
    ∃ l', l.pay r.credited r.amount = .ok l' := by
  cases hpay : l.pay r.credited r.amount with
  | ok l' => exact ⟨l', rfl⟩
  | error e =>
    obtain ⟨account, haccount, -, hfull⟩ := pay_eq_error_iff.1 hpay
    have hpaid : r.paid account = r.amount.toNat := if_pos haccount
    have hfits := hroom account
    rw [hpaid] at hfits
    exact absurd hfits (Nat.not_lt.2 hfull)

/-! ### One payment after the other -/

/-- End some polls by their votes, one after the other. A poll whose amount is refused is left. -/
def settle (l : Ledger) : List Poll → HeightReport × Ledger
  | [] => (.empty, l)
  | p :: ps =>
    match l.pay p.settlement.credited p.settlement.amount with
    | .ok l' =>
      match l'.settle ps with
      | (report, last) => ({ report with resolved := p.settlement :: report.resolved }, last)
    | .error e =>
      match l.settle ps with
      | (report, last) => ({ report with failed := (p.id, .ledger e) :: report.failed }, last)

theorem settle_cons_of_paid (h : l.pay p.settlement.credited p.settlement.amount = .ok l') :
    l.settle (p :: ps) =
      ({ (l'.settle ps).1 with resolved := p.settlement :: (l'.settle ps).1.resolved },
        (l'.settle ps).2) := by
  rw [settle, h]

theorem settle_cons_of_refused {e : LedgerError}
    (h : l.pay p.settlement.credited p.settlement.amount = .error e) :
    l.settle (p :: ps) =
      ({ (l.settle ps).1 with failed := (p.id, .ledger e) :: (l.settle ps).1.failed },
        (l.settle ps).2) := by
  rw [settle, h]

/-- A balance grows by what the resolutions that are reported pay. -/
theorem balance_settle (l : Ledger) (ps : List Poll) (a : AccountId) :
    ((l.settle ps).2.balance a).toNat =
      (l.balance a).toNat + ((l.settle ps).1.resolved.map (Resolution.paid · a)).sum := by
  induction ps generalizing l with
  | nil => rfl
  | cons p ps ih =>
    cases hpay : l.pay p.settlement.credited p.settlement.amount with
    | ok l' =>
      have hpaid : (l'.balance a).toNat = (l.balance a).toNat + p.settlement.paid a :=
        balance_pay hpay a
      rw [settle_cons_of_paid hpay, ih l', List.map_cons, List.sum_cons, hpaid, Nat.add_assoc]
    | error e => rw [settle_cons_of_refused hpay, ih l]

theorem le_balance_settle (l : Ledger) (ps : List Poll) (a : AccountId) :
    (l.balance a).toNat ≤ ((l.settle ps).2.balance a).toNat := by
  rw [balance_settle]
  exact Nat.le_add_right _ _

/-- Each poll has ended, or its amount has been refused and would be refused in the end as well. -/
theorem settle_cases (l : Ledger) (hp : p ∈ ps) :
    p.settlement ∈ (l.settle ps).1.resolved ∨
      ∃ e, (p.id, .ledger e) ∈ (l.settle ps).1.failed ∧
        (l.settle ps).2.pay p.settlement.credited p.settlement.amount = .error e := by
  induction ps generalizing l with
  | nil => cases hp
  | cons q ps ih =>
    cases hpay : l.pay q.settlement.credited q.settlement.amount with
    | ok l' =>
      rw [settle_cons_of_paid hpay]
      rcases List.mem_cons.1 hp with rfl | hp
      · -- the first poll is paid
        exact .inl List.mem_cons_self
      · exact (ih l' hp).imp_left (List.mem_cons_of_mem _)
    | error e =>
      rw [settle_cons_of_refused hpay]
      rcases List.mem_cons.1 hp with rfl | hp
      · -- the first poll is refused, and the balances only grow after it
        exact .inr ⟨e, List.mem_cons_self, pay_eq_error_of_le (le_balance_settle l ps) hpay⟩
      · rcases ih l hp with hresolved | ⟨e', hfailed, hrefused⟩
        · exact .inl hresolved
        · exact .inr ⟨e', List.mem_cons_of_mem _ hfailed, hrefused⟩

/-- If every amount is refused, nothing happens but that each poll is reported with the reason. -/
theorem settle_of_refused
    (h : ∀ p ∈ ps, ∃ e, l.pay p.settlement.credited p.settlement.amount = .error e) :
    (l.settle ps).2 = l ∧ (l.settle ps).1.resolved = [] ∧
      ∀ entry ∈ (l.settle ps).1.failed, ∃ p ∈ ps, ∃ e, entry = (p.id, .ledger e) ∧
        l.pay p.settlement.credited p.settlement.amount = .error e := by
  induction ps with
  | nil => exact ⟨rfl, rfl, List.forall_mem_nil _⟩
  | cons p ps ih =>
    obtain ⟨⟨e, he⟩, hrest⟩ := List.forall_mem_cons.1 h
    obtain ⟨hledger, hresolved, hfailed⟩ := ih hrest
    rw [settle_cons_of_refused he]
    refine ⟨hledger, hresolved, List.forall_mem_cons.2 ⟨?_, ?_⟩⟩
    · exact ⟨p, List.mem_cons_self, e, rfl, he⟩
    · intro entry hentry
      obtain ⟨q, hq, hcause⟩ := hfailed entry hentry
      exact ⟨q, List.mem_cons_of_mem _ hq, hcause⟩

/-- If no poll was left, all of them have ended. -/
theorem resolved_settle (h : (l.settle ps).1.failed = []) :
    (l.settle ps).1.resolved = ps.map Poll.settlement := by
  induction ps generalizing l with
  | nil => rfl
  | cons p ps ih =>
    cases hpay : l.pay p.settlement.credited p.settlement.amount with
    | ok l' =>
      rw [settle_cons_of_paid hpay] at h ⊢
      exact congrArg (p.settlement :: ·) (ih h)
    | error e =>
      rw [settle_cons_of_refused hpay] at h
      cases h

theorem balance_settle_of_complete (h : (l.settle ps).1.failed = []) (a : AccountId) :
    ((l.settle ps).2.balance a).toNat = (l.balance a).toNat + owed ps a := by
  rw [balance_settle, resolved_settle h, List.map_map]
  rfl

/-- No poll is left just if every balance has room for all that goes to it. -/
theorem settle_complete_iff :
    (l.settle ps).1.failed = [] ↔ ∀ a, (l.balance a).toNat + owed ps a < UInt64.size := by
  constructor
  · intro h a
    rw [← balance_settle_of_complete h]
    exact UInt64.toNat_lt _
  · intro hroom
    induction ps generalizing l with
    | nil => rfl
    | cons p ps ih =>
      have howed : ∀ a, owed (p :: ps) a = p.settlement.paid a + owed ps a := fun _ => List.sum_cons
      have hfirst : ∀ a, (l.balance a).toNat + p.settlement.paid a < UInt64.size := by
        intro a
        have hall := hroom a
        rw [howed] at hall
        omega
      obtain ⟨l', hpay⟩ := exists_pay_of_room hfirst
      rw [settle_cons_of_paid hpay]
      apply ih
      intro a
      have hpaid : (l'.balance a).toNat = (l.balance a).toNat + p.settlement.paid a :=
        balance_pay hpay a
      rw [hpaid, Nat.add_assoc, ← howed]
      exact hroom a

end Ledger

/-! ### Several polls end -/

namespace PollStore

/-- File the outcomes of some resolutions. -/
def finishAll (s : PollStore) (rs : List Resolution) : PollStore :=
  rs.foldl (fun s r => s.finish r.id r.outcome) s

theorem Sound.finishAll {s : PollStore} (hs : s.Sound) (rs : List Resolution) :
    (s.finishAll rs).Sound := by
  induction rs generalizing s with
  | nil => exact hs
  | cons r rs ih => exact ih (hs.finish r.id r.outcome)

theorem pending_finishAll (s : PollStore) (rs : List Resolution) (id : TransactionId) :
    (s.finishAll rs).pending.get? id =
      if id ∈ rs.map (·.id) then none else s.pending.get? id := by
  induction rs generalizing s with
  | nil => rfl
  | cons r rs ih =>
    show ((s.finish r.id r.outcome).finishAll rs).pending.get? id = _
    rw [ih, pending_finish]
    by_cases hid : r.id = id
    · simp [hid]
    · simp [hid, Ne.symm hid]

theorem outcomes_finishAll_of_not_mem (s : PollStore) {rs : List Resolution} {id : TransactionId}
    (h : id ∉ rs.map (·.id)) : (s.finishAll rs).outcomes.get? id = s.outcomes.get? id := by
  induction rs generalizing s with
  | nil => rfl
  | cons r rs ih =>
    obtain ⟨hne, hrest⟩ := not_or.1 (mt List.mem_cons.2 h)
    show ((s.finish r.id r.outcome).finishAll rs).outcomes.get? id = _
    rw [ih _ hrest, outcomes_finish, if_neg (Ne.symm hne)]

theorem outcomes_finishAll_of_mem (s : PollStore) {rs : List Resolution}
    (hnodup : (rs.map (·.id)).Nodup) {r : Resolution} (hr : r ∈ rs) :
    (s.finishAll rs).outcomes.get? r.id = some r.outcome := by
  induction rs generalizing s with
  | nil => cases hr
  | cons r' rs ih =>
    obtain ⟨hnew, hnodup⟩ := List.nodup_cons.1 hnodup
    show ((s.finish r'.id r'.outcome).finishAll rs).outcomes.get? r.id = _
    rcases List.mem_cons.1 hr with rfl | hr
    · rw [outcomes_finishAll_of_not_mem _ hnew, outcomes_finish, if_pos rfl]
    · exact ih _ hnodup hr

/-! ### Polls that are due -/

/-- End the polls that are due at a height, each by its votes. -/
def endDue (s : PollStore) (early : Bool) (height : UInt32) : PollStore :=
  s.finishAll ((s.due early height).map Poll.settlement)

theorem ids_map_settlement (ps : List Poll) :
    (ps.map Poll.settlement).map (·.id) = ps.map (·.id) := by
  rw [List.map_map]
  rfl

section Due

variable {s : PollStore} {early : Bool} {height : UInt32} {p : Poll}

/-- The polls that are due are those pending ones that are resolved at the height. -/
theorem Sound.mem_due (hs : s.Sound) :
    p ∈ s.due early height ↔ s.pending.get? p.id = some p ∧ p.EndsAt early height := by
  unfold due
  rw [List.mem_filter, hs.mem_values, decide_eq_true_iff]

theorem Sound.nodup_ids_due (hs : s.Sound) (early : Bool) (height : UInt32) :
    ((s.due early height).map (·.id)).Nodup :=
  List.pairwise_map.2 ((hs.ascending_values.filter _).imp UInt64.ne_of_lt)

theorem Sound.endDue (hs : s.Sound) (early : Bool) (height : UInt32) :
    (s.endDue early height).Sound :=
  hs.finishAll _

/-- A poll that is due ends by its votes. -/
theorem Sound.endDue_of_endsAt (hs : s.Sound) (hp : s.pending.get? p.id = some p)
    (hend : p.EndsAt early height) :
    (s.endDue early height).pending.get? p.id = none ∧
      (s.endDue early height).outcomes.get? p.id = some p.verdict := by
  have hmem : p.settlement ∈ (s.due early height).map Poll.settlement :=
    List.mem_map_of_mem (hs.mem_due.2 ⟨hp, hend⟩)
  have hnodup : (((s.due early height).map Poll.settlement).map (·.id)).Nodup := by
    rw [ids_map_settlement]
    exact hs.nodup_ids_due early height
  constructor
  · exact (pending_finishAll ..).trans (if_pos (List.mem_map_of_mem hmem))
  · exact outcomes_finishAll_of_mem s hnodup hmem

/-- What is not due stays as it is. -/
theorem Sound.endDue_of_kept (hs : s.Sound) {id : TransactionId}
    (hkept : ∀ p, s.pending.get? id = some p → ¬p.EndsAt early height) :
    (s.endDue early height).pending.get? id = s.pending.get? id ∧
      (s.endDue early height).outcomes.get? id = s.outcomes.get? id := by
  have hnot : id ∉ ((s.due early height).map Poll.settlement).map (·.id) := by
    rw [ids_map_settlement]
    intro hmem
    obtain ⟨p, hp, rfl⟩ := List.mem_map.1 hmem
    obtain ⟨hpending, hend⟩ := hs.mem_due.1 hp
    exact hkept p hpending hend
  constructor
  · exact (pending_finishAll ..).trans (if_neg hnot)
  · exact outcomes_finishAll_of_not_mem s hnot

theorem Sound.endDue_of_not_endsAt (hs : s.Sound) (hp : s.pending.get? p.id = some p)
    (hend : ¬p.EndsAt early height) :
    (s.endDue early height).pending.get? p.id = some p ∧
      (s.endDue early height).outcomes.get? p.id = none := by
  have hkept : ∀ q, s.pending.get? p.id = some q → ¬q.EndsAt early height := by
    intro q hq
    cases hp.symm.trans hq
    exact hend
  obtain ⟨hpending, houtcome⟩ := hs.endDue_of_kept hkept
  exact ⟨hpending.trans hp, houtcome.trans (hs.not_ended hp)⟩

theorem Sound.endDue_of_not_pending (hs : s.Sound) {id : TransactionId}
    (hnone : s.pending.get? id = none) (early : Bool) (height : UInt32) :
    (s.endDue early height).pending.get? id = none ∧
      (s.endDue early height).outcomes.get? id = s.outcomes.get? id := by
  have hkept : ∀ q, s.pending.get? id = some q → ¬q.EndsAt early height := by
    intro q hq
    cases hnone.symm.trans hq
  obtain ⟨hpending, houtcome⟩ := hs.endDue_of_kept hkept
  exact ⟨hpending.trans hnone, houtcome⟩

theorem Sound.pending_endDue_iff (hs : s.Sound) {id : TransactionId} :
    (s.endDue early height).pending.get? id = some p ↔
      s.pending.get? id = some p ∧ ¬p.EndsAt early height := by
  cases hpending : s.pending.get? id with
  | none => simp [(hs.endDue_of_not_pending hpending early height).1]
  | some q =>
    obtain rfl := hs.id_of_pending hpending
    by_cases hend : q.EndsAt early height
    · -- the poll has ended
      rw [(hs.endDue_of_endsAt hpending hend).1]
      constructor
      · exact nofun
      · rintro ⟨heq, hnot⟩
        cases heq
        exact absurd hend hnot
    · -- the poll is still there
      rw [(hs.endDue_of_not_endsAt hpending hend).1]
      constructor
      · intro heq
        cases heq
        exact ⟨rfl, hend⟩
      · exact And.left

theorem Sound.outcomes_endDue_iff (hs : s.Sound) {id : TransactionId} {outcome : PollOutcome} :
    (s.endDue early height).outcomes.get? id = some outcome ↔
      s.outcomes.get? id = some outcome ∨
        ∃ p, s.pending.get? id = some p ∧ p.EndsAt early height ∧ p.verdict = outcome := by
  cases hpending : s.pending.get? id with
  | none => simp [(hs.endDue_of_not_pending hpending early height).2]
  | some p =>
    obtain rfl := hs.id_of_pending hpending
    by_cases hend : p.EndsAt early height
    · simp [(hs.endDue_of_endsAt hpending hend).2, hs.not_ended hpending, hend]
    · simp [(hs.endDue_of_not_endsAt hpending hend).2, hs.not_ended hpending, hend]

end Due

end PollStore

/-! ### Nodes -/

namespace Node

variable {n n' : Node} {p : Poll} {outcome : PollOutcome}

/-- Where no request is lost, an attempt ends the poll if its amount is not refused, and else
    leaves everything as it is. -/
theorem resolve_none_cases (hs : n.polls.Sound) (hp : n.polls.pending.get? p.id = some p)
    {r : Except PollError Resolution} (h : n.resolve .none p.id outcome = (r, n')) :
    (n.ledger.pay (p.beneficiary? outcome) p.amount = .ok n'.ledger ∧
      r = .ok (p.resolution outcome) ∧ n'.polls = n.polls.finish p.id outcome) ∨
    ∃ e, n.ledger.pay (p.beneficiary? outcome) p.amount = .error e ∧ r = .error (.ledger e) ∧
      n'.ledger = n.ledger ∧ n'.polls = n.polls := by
  rcases release_of_resolve h with ⟨hnone, -⟩ | ⟨q, hretires, hrelease⟩
  · -- the poll is there to be retired
    exact absurd ⟨rfl, hs.isAvailable, hp⟩ (hnone p)
  · obtain rfl : p = q := Option.some.inj (hp.symm.trans hretires.pending)
    rcases release_cases hrelease with
      ⟨-, ledger, k, hpaid, rfl, rfl⟩ | ⟨-, account, error, haccount, hrefused, rfl, rfl⟩
    · -- the amount is paid
      exact .inl ⟨hpaid, rfl, rfl⟩
    · -- the balance has no room, and the poll is taken back
      have hpolls : ((n.retired p.id outcome).tick.record
          (.releaseFailed p.id account error)).polls = n.polls.finish p.id outcome := rfl
      rcases takeBack_of_retired hs hp hpolls .none with ⟨-, htaken⟩ | ⟨fault, hlost, -⟩
      · rw [htaken, haccount]
        exact .inr ⟨error, hrefused rfl, rfl, rfl, rfl⟩
      · cases hlost

/-- A list of pending polls is settled by the balances alone. -/
theorem resolveEach_none (hs : n.polls.Sound) {early : Bool} {height : UInt32} {ps : List Poll}
    (hpending : ∀ p ∈ ps, n.polls.pending.get? p.id = some p)
    (hascending : ps.Pairwise fun p q => p.id < q.id) {report : HeightReport}
    (h : n.resolveEach .none early height ps = (report, n')) :
    report = (n.ledger.settle (ps.filter (·.EndsAt early height))).1 ∧
      n'.ledger = (n.ledger.settle (ps.filter (·.EndsAt early height))).2 ∧
      n'.polls = n.polls.finishAll report.resolved := by
  induction ps generalizing n report with
  | nil =>
    cases h
    exact ⟨rfl, rfl, rfl⟩
  | cons p ps ih =>
    obtain ⟨hp, hpending⟩ := List.forall_mem_cons.1 hpending
    obtain ⟨habove, hascending⟩ := List.pairwise_cons.1 hascending
    rcases resolveEach_due_cases h with ⟨hdue, hrest⟩ |
      ⟨hdue, r, n₁, rest, hresolve, hrest, rfl⟩ | ⟨hdue, e, n₁, rest, hresolve, hrest, rfl⟩
    · -- the poll is not due
      rw [List.filter_cons_of_neg (by simpa using hdue)]
      exact ih hs hpending hascending hrest
    · -- the poll ends
      rw [List.filter_cons_of_pos (by simpa using hdue)]
      rcases resolve_none_cases hs hp hresolve with ⟨hpaid, hr, hpolls⟩ | ⟨e, -, hr, -⟩
      · cases hr
        have hpending₁ : ∀ q ∈ ps, n₁.polls.pending.get? q.id = some q :=
          hpolls ▸ PollStore.pending_finish_of_above habove hpending _
        obtain ⟨hreport, hledger, hstore⟩ :=
          ih (hpolls ▸ hs.finish _ _) hpending₁ hascending hrest
        rw [Ledger.settle_cons_of_paid (p := p) hpaid]
        refine ⟨?_, hledger, ?_⟩
        · rw [hreport]
          rfl
        · rw [hstore, hpolls]
          rfl
      · cases hr
    · -- the balance of the beneficiary has no room
      rw [List.filter_cons_of_pos (by simpa using hdue)]
      rcases resolve_none_cases hs hp hresolve with ⟨-, hr, -⟩ | ⟨e, hrefused, hr, hsame, hpolls⟩
      · cases hr
      · cases hr
        obtain ⟨hreport, hledger, hstore⟩ :=
          ih (n := n₁.record (.pollLeft p.id height (.ledger e))) (hpolls ▸ hs)
            (hpolls ▸ hpending) hascending hrest
        have hledger₁ : (n₁.record (.pollLeft p.id height (.ledger e))).ledger = n.ledger := hsame
        have hpolls₁ : (n₁.record (.pollLeft p.id height (.ledger e))).polls = n.polls := hpolls
        rw [hledger₁] at hreport hledger
        rw [hpolls₁] at hstore
        rw [Ledger.settle_cons_of_refused (p := p) hrefused]
        refine ⟨?_, hledger, hstore⟩
        rw [hreport]

/-- So is a whole height. -/
theorem resolveDue_none (hs : n.polls.Sound) (early : Bool) (height : UInt32) :
    ∃ m, n.resolveDue .none early height =
        (.ok (n.ledger.settle (n.polls.due early height)).1, m) ∧
      m.ledger = (n.ledger.settle (n.polls.due early height)).2 ∧
      m.polls =
        n.polls.finishAll (n.ledger.settle (n.polls.due early height)).1.resolved := by
  have hlisted : Faults.none.store n.requests .list = none := rfl
  obtain ⟨report, m, n', heach, hanswer, j, rfl⟩ := resolveDue_of_listed hs hlisted early height
  obtain ⟨rfl, hledger, hpolls⟩ :=
    resolveEach_none (n := n.tick) hs (fun p hp => hs.mem_values.1 hp) hs.ascending_values heach
  exact ⟨_, hanswer, hledger, hpolls⟩

theorem perform_resolveDue_none (hs : n.polls.Sound) (config : Config) (height : UInt32) :
    ∃ m, n.perform .none config (.resolveDue height) =
        (.report (.ok (n.ledger.settle (n.polls.due config.resolveEarly height)).1), m) ∧
      m.ledger = (n.ledger.settle (n.polls.due config.resolveEarly height)).2 ∧
      m.polls = n.polls.finishAll
        (n.ledger.settle (n.polls.due config.resolveEarly height)).1.resolved := by
  obtain ⟨m, hanswer, hledger, hpolls⟩ := resolveDue_none hs config.resolveEarly height
  refine ⟨m, ?_, hledger, hpolls⟩
  rw [perform, hanswer]
  rfl

end Node

end LedgerAppendix
