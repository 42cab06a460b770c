import LedgerAppendix.Proofs.Node.Settlement

/-!
# Two heights in a row

The polls that are due at a height are due at every later one. So where one height is evaluated
after another, the second one meets the polls that the first one left: those whose amounts were
refused, if it is not the later one, and else those that come due in between as well.

What was refused is refused again, so going back to a height changes nothing. If the later height
alone refuses nothing, the earlier one takes nothing from it but polls that it need not end itself.
-/

namespace LedgerAppendix

variable {early : Bool} {h₁ h₂ : UInt32}

/-! ### What is owed -/

theorem owed_append (ps qs : List Poll) (a : AccountId) :
    owed (ps ++ qs) a = owed ps a + owed qs a := by
  unfold owed
  rw [List.map_append, List.sum_append]

theorem owed_perm {ps qs : List Poll} (h : ps.Perm qs) (a : AccountId) : owed ps a = owed qs a :=
  (h.map _).sum_nat

/-! ### Polls that are due twice -/

namespace PollStore

variable {s : PollStore}

/-- After a height, a poll that is due at an earlier one is a poll that was left, and it would be
    refused again. -/
theorem Sound.refused_of_due_again (hs : s.Sound) (hle : h₂ ≤ h₁) {l last : Ledger}
    {report : HeightReport} (h : l.settle (s.due early h₁) = (report, last)) {p : Poll}
    (hp : p ∈ (s.finishAll report.resolved).due early h₂) :
    ∃ e, (p.id, .ledger e) ∈ report.failed ∧
      last.pay p.settlement.credited p.settlement.amount = .error e := by
  obtain ⟨hpending, hend⟩ := (hs.finishAll _).mem_due.1 hp
  rw [pending_finishAll] at hpending
  split at hpending
  · cases hpending
  · next hleft =>
    have hcases := l.settle_cases (hs.mem_due.2 ⟨hpending, hend.later hle⟩)
    rw [h] at hcases
    exact hcases.resolve_left fun hended => hleft (List.mem_map_of_mem hended)

/-- After a height, those polls are due that were due in the beginning and have not ended. -/
theorem Sound.mem_due_endDue (hs : s.Sound) {p : Poll} :
    p ∈ (s.endDue early h₁).due early h₂ ↔ p ∈ s.due early h₂ ∧ p ∉ s.due early h₁ := by
  rw [(hs.endDue early h₁).mem_due, hs.pending_endDue_iff, hs.mem_due, hs.mem_due]
  tauto

/-- The polls that are due at a height are those that an earlier height ends, and those that are
    still due after it. -/
theorem Sound.perm_due (hs : s.Sound) (hle : h₁ ≤ h₂) :
    (s.due early h₁ ++ (s.endDue early h₁).due early h₂).Perm (s.due early h₂) := by
  have hnodup : ∀ {t : PollStore}, t.Sound → ∀ height, (t.due early height).Nodup :=
    fun ht height => (ht.nodup_ids_due early height).of_map
  have hfirst : ∀ p ∈ s.due early h₁, p ∈ s.due early h₂ := by
    intro p hp
    obtain ⟨hpending, hend⟩ := hs.mem_due.1 hp
    exact hs.mem_due.2 ⟨hpending, hend.later hle⟩
  refine (List.perm_ext_iff_of_nodup ?_ (hnodup hs h₂)).2 ?_
  · -- what the earlier height ends is not due again
    refine List.nodup_append'.2 ⟨hnodup hs h₁, hnodup (hs.endDue early h₁) h₂, ?_⟩
    intro p hp hagain
    exact (hs.mem_due_endDue.1 hagain).2 hp
  · -- a poll that is due later was so earlier, or it still is
    intro p
    rw [List.mem_append, hs.mem_due_endDue]
    constructor
    · rintro (hp | ⟨hp, -⟩)
      · exact hfirst p hp
      · exact hp
    · intro hp
      exact or_iff_not_imp_left.2 fun hnot => ⟨hp, hnot⟩

/-- An earlier height leaves the later one less to do, and the same comes of both. -/
theorem Sound.endDue_endDue (hs : s.Sound) (hle : h₁ ≤ h₂) :
    (s.endDue early h₁).endDue early h₂ = s.endDue early h₂ := by
  have hs₁ := hs.endDue early h₁
  have hlater : ∀ {p : Poll}, p.EndsAt early h₁ → p.EndsAt early h₂ := fun hend => hend.later hle
  apply (hs₁.endDue early h₂).eq_of_get? (hs.endDue early h₂)
  · -- the polls that are pending
    intro id
    ext p
    simp only [hs₁.pending_endDue_iff, hs.pending_endDue_iff]
    tauto
  · -- the outcomes
    intro id
    ext outcome
    simp only [hs₁.outcomes_endDue_iff, hs.outcomes_endDue_iff, hs.pending_endDue_iff]
    constructor
    · rintro ((hended | ⟨p, hp, hend, hverdict⟩) | ⟨p, ⟨hp, -⟩, hend, hverdict⟩)
      · exact .inl hended
      · exact .inr ⟨p, hp, hlater hend, hverdict⟩
      · exact .inr ⟨p, hp, hend, hverdict⟩
    · rintro (hended | ⟨p, hp, hend, hverdict⟩)
      · exact .inl (.inl hended)
      · -- the poll has ended at the one height or at the other
        by_cases hfirst : p.EndsAt early h₁
        · exact .inl (.inr ⟨p, hp, hfirst, hverdict⟩)
        · exact .inr ⟨p, ⟨hp, hfirst⟩, hend, hverdict⟩

/-! ### The payments -/

/-- Going back to a height pays nothing, and whatever fails has failed for the same reason. -/
theorem Sound.settle_again (hs : s.Sound) (hle : h₂ ≤ h₁) {l last : Ledger}
    {report : HeightReport} (h : l.settle (s.due early h₁) = (report, last)) :
    (last.settle ((s.finishAll report.resolved).due early h₂)).2 = last ∧
      (last.settle ((s.finishAll report.resolved).due early h₂)).1.resolved = [] ∧
      ∀ entry ∈ (last.settle ((s.finishAll report.resolved).due early h₂)).1.failed,
        entry ∈ report.failed := by
  have hleft : ∀ p ∈ (s.finishAll report.resolved).due early h₂, ∃ e,
      (p.id, .ledger e) ∈ report.failed ∧
        last.pay p.settlement.credited p.settlement.amount = .error e :=
    fun p hp => hs.refused_of_due_again hle h hp
  obtain ⟨hledger, hresolved, hfailed⟩ := Ledger.settle_of_refused (l := last) fun p hp =>
    (hleft p hp).imp fun _ => And.right
  refine ⟨hledger, hresolved, ?_⟩
  intro entry hentry
  obtain ⟨p, hp, e, rfl, he⟩ := hfailed entry hentry
  obtain ⟨e', hfirst, he'⟩ := hleft p hp
  rw [he] at he'
  cases he'
  exact hfirst

/-- If the later height alone pays everything, the earlier height does and so does the later one
    after it, and the same is paid. -/
theorem Sound.settle_in_two (hs : s.Sound) (hle : h₁ ≤ h₂) (l : Ledger)
    (hall : (l.settle (s.due early h₂)).1.failed = []) :
    (l.settle (s.due early h₁)).1.failed = [] ∧
      ((l.settle (s.due early h₁)).2.settle ((s.endDue early h₁).due early h₂)).1.failed = [] ∧
      ∀ a, ((l.settle (s.due early h₁)).2.settle
          ((s.endDue early h₁).due early h₂)).2.balance a =
        (l.settle (s.due early h₂)).2.balance a := by
  have howed : ∀ a, owed (s.due early h₂) a =
      owed (s.due early h₁) a + owed ((s.endDue early h₁).due early h₂) a := by
    intro a
    rw [← owed_perm (hs.perm_due hle), owed_append]
  have hroom := Ledger.settle_complete_iff.1 hall
  have hfirst : (l.settle (s.due early h₁)).1.failed = [] := by
    apply Ledger.settle_complete_iff.2
    intro a
    have hboth := hroom a
    rw [howed] at hboth
    omega
  have hsecond : ((l.settle (s.due early h₁)).2.settle
      ((s.endDue early h₁).due early h₂)).1.failed = [] := by
    apply Ledger.settle_complete_iff.2
    intro a
    rw [Ledger.balance_settle_of_complete hfirst, Nat.add_assoc, ← howed]
    exact hroom a
  refine ⟨hfirst, hsecond, ?_⟩
  intro a
  apply UInt64.toNat_inj.1
  rw [Ledger.balance_settle_of_complete hsecond, Ledger.balance_settle_of_complete hfirst,
    Ledger.balance_settle_of_complete hall, howed, Nat.add_assoc]

end PollStore

/-! ### Nodes -/

namespace Node

variable {n : Node}

/-- Where no request is lost, evaluating a height after a later one changes nothing, and what fails
    then has failed before; and if evaluating a height fails for no poll, it makes no difference to
    evaluate an earlier height first. -/
theorem resolveDue_twice (hn : n.Reachable) (config : Config) (h₁ h₂ : UInt32) :
    ∃ first n₁ second n₂ alone m,
      n.perform .none config (.resolveDue h₁) = (.report (.ok first), n₁) ∧
      n₁.perform .none config (.resolveDue h₂) = (.report (.ok second), n₂) ∧
      n.perform .none config (.resolveDue h₂) = (.report (.ok alone), m) ∧
      (h₂ ≤ h₁ →
        n₂.ledger = n₁.ledger ∧ n₂.polls = n₁.polls ∧ second.resolved = [] ∧
        ∀ entry ∈ second.failed, entry ∈ first.failed) ∧
      (h₁ ≤ h₂ → alone.failed = [] →
        first.failed = [] ∧ second.failed = [] ∧
        (first.resolved ++ second.resolved).Perm alone.resolved ∧
        n₂.polls.pending = m.polls.pending ∧ n₂.polls.outcomes = m.polls.outcomes ∧
        ∀ a, n₂.ledger.balance a = m.ledger.balance a) := by
  have hs := hn.sound
  obtain ⟨n₁, hfirst, hledger₁, hpolls₁⟩ := perform_resolveDue_none hs config h₁
  obtain ⟨n₂, hsecond, hledger₂, hpolls₂⟩ :=
    perform_resolveDue_none (hpolls₁ ▸ hs.finishAll _) config h₂
  obtain ⟨m, halone, hledger, hpolls⟩ := perform_resolveDue_none hs config h₂
  refine ⟨_, n₁, _, n₂, _, m, hfirst, hsecond, halone, ?_, ?_⟩
  · -- an earlier height after a later one
    intro hle
    obtain ⟨hkept, hresolved, hfailed⟩ := hs.settle_again hle (Prod.eta _).symm
    rw [← hledger₁, ← hpolls₁] at hkept hresolved hfailed
    refine ⟨hledger₂.trans hkept, ?_, hresolved, hfailed⟩
    rw [hpolls₂, hresolved]
    rfl
  · -- a later height after an earlier one
    intro hle hcomplete
    obtain ⟨hcomplete₁, hcomplete₂, hbalance⟩ := hs.settle_in_two hle n.ledger hcomplete
    have hstore₁ : n₁.polls = n.polls.endDue config.resolveEarly h₁ := by
      rw [hpolls₁, Ledger.resolved_settle hcomplete₁]
      rfl
    rw [← hledger₁, ← hstore₁] at hcomplete₂ hbalance
    have hstore₂ : n₂.polls = m.polls := by
      rw [hpolls₂, Ledger.resolved_settle hcomplete₂, hpolls, Ledger.resolved_settle hcomplete,
        hstore₁]
      exact hs.endDue_endDue hle
    refine ⟨hcomplete₁, hcomplete₂, ?_, by rw [hstore₂], by rw [hstore₂], ?_⟩
    · -- the resolutions
      rw [Ledger.resolved_settle hcomplete₁, Ledger.resolved_settle hcomplete₂,
        Ledger.resolved_settle hcomplete, ← List.map_append, hstore₁]
      exact (hs.perm_due hle).map _
    · -- balances
      intro a
      rw [hledger₂, hledger]
      exact hbalance a

/-- Two payments, of which the first has its vote. -/
def waitingNode : Node :=
  ((ofLedger .empty).run .none
    [(.standard, phasedPayment 7 1 (some 2) 10), (.standard, phasedPayment 8 1 (some 2) 5),
      (.standard, .vote 7 3 150)]).2

/-- The first payment is made before the last height and the second one is given back there, which
    comes to what the last height makes of both; and where there is no room for a payment, a height
    that failed for it fails for it again. -/
theorem resolveDue_twice_waiting :
    (∃ first n₁ second n₂ alone m,
      waitingNode.perform .none .standard (.resolveDue 160) = (.report (.ok first), n₁) ∧
      n₁.perform .none .standard (.resolveDue 200) = (.report (.ok second), n₂) ∧
      waitingNode.perform .none .standard (.resolveDue 200) = (.report (.ok alone), m) ∧
      first.resolved = [⟨7, .approved, some 2, 10⟩] ∧
      second.resolved = [⟨8, .rejected, some 1, 5⟩] ∧
      (first.resolved ++ second.resolved).Perm alone.resolved ∧
      ∀ a, n₂.ledger.balance a = m.ledger.balance a) ∧
    ∃ first n₁ second n₂,
      narrowNode.perform .none .standard (.resolveDue 200) = (.report (.ok first), n₁) ∧
      n₁.perform .none .standard (.resolveDue 200) = (.report (.ok second), n₂) ∧
      second.failed = [(8, .ledger (.balanceOverflow 2))] ∧
      n₂.ledger = n₁.ledger ∧ ∀ entry ∈ second.failed, entry ∈ first.failed := by
  constructor
  · have hreached : waitingNode.Reachable := (Reachable.start _).run (Prod.eta _).symm
    obtain ⟨first, n₁, second, n₂, alone, m, hfirst, hsecond, halone, -, hlater⟩ :=
      resolveDue_twice hreached .standard 160 200
    have hcomplete : alone.failed = [] := by
      cases halone
      rfl
    obtain ⟨-, -, hperm, -, -, hbalance⟩ := hlater (by decide) hcomplete
    refine ⟨first, n₁, second, n₂, alone, m, hfirst, hsecond, halone, ?_, ?_, hperm, hbalance⟩
    · cases hfirst
      rfl
    · cases hfirst
      cases hsecond
      rfl
  · have hreached : narrowNode.Reachable := (Reachable.start _).run (Prod.eta _).symm
    obtain ⟨first, n₁, second, n₂, -, -, hfirst, hsecond, -, hagain, -⟩ :=
      resolveDue_twice hreached .standard 200 200
    obtain ⟨hledger, -, -, hfailed⟩ := hagain (by decide)
    refine ⟨first, n₁, second, n₂, hfirst, hsecond, ?_, hledger, hfailed⟩
    cases hfirst
    cases hsecond
    rfl

end Node

end LedgerAppendix
