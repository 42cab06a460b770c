import LedgerAppendix.Proofs.Node.Finality
import LedgerAppendix.Proofs.Node.PendingPolls

/-!
# The withheld amounts are accounted for

As long as a poll can be reinstated whenever it has to be, the resolutions that a run reports are,
up to their order, those of the openings whose polls have ended: each of these is reported once, and
a poll that is still pending is not among them. Only a release changes a balance, and by just what
the resolution says. So every balance is the one at the start and what the openings that have ended
give it, and this holds of the exact sums: a credit that would wrap around is refused, and then the
poll stays pending.
-/

namespace LedgerAppendix

/-- The end of the poll that an opening opened, if the store has one. -/
def PollStore.resolution? (s : PollStore) (o : Opening) : Option Resolution :=
  (s.outcomes.get? o.tx.id).map o.poll.resolution

/-- What some openings withhold, all together. -/
def withheld (os : List Opening) : Nat := (os.map (·.tx.amount.toNat)).sum

/-- Where two choices differ at one element only, which the second one adds, the lists that they
    choose differ by what is added. -/
theorem filterMap_perm_of_eq_off {α β : Type} {f g : α → Option β} {l : List α} {x : α} {b : β}
    (hnodup : l.Nodup) (hx : x ∈ l) (hf : f x = none) (hg : g x = some b)
    (hoff : ∀ y ∈ l, y ≠ x → g y = f y) : (l.filterMap f ++ [b]).Perm (l.filterMap g) := by
  obtain ⟨u, v, rfl⟩ := List.append_of_mem hx
  have hsplit := List.nodup_middle.1 hnodup
  have hnot : x ∉ u ++ v := (List.nodup_cons.1 hsplit).1
  have hu : u.filterMap g = u.filterMap f := by
    apply List.filterMap_congr
    intro y hy
    apply hoff y (List.mem_append_left _ hy)
    rintro rfl
    exact hnot (List.mem_append_left _ hy)
  have hv : v.filterMap g = v.filterMap f := by
    apply List.filterMap_congr
    intro y hy
    apply hoff y (List.mem_append_right _ (List.mem_cons_of_mem _ hy))
    rintro rfl
    exact hnot (List.mem_append_right _ hy)
  rw [List.filterMap_append, List.filterMap_append, List.filterMap_cons_none hf,
    List.filterMap_cons_some hg, hu, hv]
  exact (List.perm_append_singleton _ _).trans List.perm_middle.symm

/-! ### Resolutions and outcomes -/

/-- A poll that ends adds its resolution to those of the openings that had ended before. -/
theorem PollStore.Registers.perm_finish {s : PollStore} {os : List Opening} (hr : s.Registers os)
    (hs : s.Sound) {p : Poll} (outcome : PollOutcome) (hpending : s.pending.get? p.id = some p) :
    (os.filterMap s.resolution? ++ [p.resolution outcome]).Perm
      (os.filterMap (s.finish p.id outcome).resolution?) := by
  obtain ⟨o, ho, hid, votes, hp⟩ := hr.of_pending hpending
  refine filterMap_perm_of_eq_off (x := o) (List.Nodup.of_map _ hr.nodup) ho ?_ ?_ ?_
  · rw [PollStore.resolution?, hid, hs.not_ended hpending, Option.map_none]
  · rw [PollStore.resolution?, PollStore.outcomes_finish, if_pos hid.symm, Option.map_some, hp]
    rfl
  · intro o' ho' hne
    have hother : p.id ≠ o'.tx.id := fun h => hne (hr.eq_of_id ho' ho (h.symm.trans hid.symm))
    rw [PollStore.resolution?, PollStore.outcomes_finish, if_neg hother, PollStore.resolution?]

namespace Node

variable {faults : Faults} {n n' : Node} {os : List Opening} {rs : List Resolution}

theorem Step.resolutions (hkept : ∀ k, faults.store k .reinstate = none) {m : Move}
    (h : n.Step faults m n') (hs : n.polls.Sound) (hr : n.polls.Registers os)
    (hrs : rs.Perm (os.filterMap n.polls.resolution?)) :
    (rs ++ m.resolution?.toList).Perm
      ((os ++ m.opening?.toList).filterMap n'.polls.resolution?) := by
  have hsame : (rs ++ (none : Option Resolution).toList).Perm
      ((os ++ (none : Option Opening).toList).filterMap n.polls.resolution?) := by
    rw [Option.toList_none, Option.toList_none, List.append_nil, List.append_nil]
    exact hrs
  cases h with
  | idle => exact hsame
  | bound => exact hsame
  | @opened o _ _ hended =>
    -- an identifier that is new has no outcome, so the new opening adds no resolution
    have hnone : n.polls.resolution? o = none := by
      rw [PollStore.resolution?, hended, Option.map_none]
    show (rs ++ []).Perm ((os ++ [o]).filterMap n.polls.resolution?)
    rw [List.filterMap_append, List.filterMap_cons_none hnone]
    exact hrs.append_right []
  | voted => exact hsame
  | @released p outcome _ _ hpending =>
    show (rs ++ [p.resolution outcome]).Perm
      ((os ++ []).filterMap (n.polls.finish p.id outcome).resolution?)
    rw [List.append_nil]
    exact (hrs.append_right _).trans (hr.perm_finish hs outcome hpending)
  | restored => exact hsame
  | stranded j _ _ _ hlost =>
    -- an outcome without a resolution takes a lost request to reinstate the poll
    rw [hkept j] at hlost
    cases hlost

theorem Moves.resolutions (hkept : ∀ k, faults.store k .reinstate = none) {ms : List Move}
    (h : n.Moves faults ms n') (hs : n.polls.Sound) (hr : n.polls.Registers os)
    (hrs : rs.Perm (os.filterMap n.polls.resolution?)) :
    (rs ++ ms.filterMap Move.resolution?).Perm
      ((os ++ ms.filterMap Move.opening?).filterMap n'.polls.resolution?) := by
  induction h generalizing os rs with
  | nil =>
    rw [List.filterMap_nil, List.filterMap_nil, List.append_nil, List.append_nil]
    exact hrs
  | cons hstep _ ih =>
    rw [filterMap_cons_toList, filterMap_cons_toList, ← List.append_assoc, ← List.append_assoc]
    exact ih (hstep.sound hs) (hstep.registers hr) (hstep.resolutions hkept hs hr hrs)

/-- Every balance is the one at the start and what the openings that have ended give the account. -/
theorem Moves.balance_of_openings (hkept : ∀ k, faults.store k .reinstate = none) {ledger : Ledger}
    {ms : List Move} (h : (ofLedger ledger).Moves faults ms n) (a : AccountId) :
    (n.ledger.balance a).toNat =
      (ledger.balance a).toNat +
        (((ms.filterMap Move.opening?).filterMap n.polls.resolution?).map
          (Resolution.paid · a)).sum := by
  have hperm : (ms.filterMap Move.resolution?).Perm
      ((ms.filterMap Move.opening?).filterMap n.polls.resolution?) :=
    h.resolutions hkept PollStore.sound_empty PollStore.registers_empty .nil
  rw [h.balance a, (hperm.map _).sum_nat]
  rfl

end Node

/-! ### Sums -/

theorem paid_approved (o : Opening) (a : AccountId) :
    (o.poll.resolution .approved).paid a =
      if o.tx.recipient = some a then o.tx.amount.toNat else 0 :=
  rfl

theorem paid_rejected (o : Opening) (a : AccountId) :
    (o.poll.resolution .rejected).paid a =
      if o.tx.sender = a then o.tx.amount.toNat else 0 := by
  have hback : (o.poll.resolution .rejected).paid a =
      if some o.tx.sender = some a then o.tx.amount.toNat else 0 := rfl
  rw [hback]
  simp only [Option.some.injEq]

/-- What the openings that have ended give an account: the amounts approved for it, and those that
    it gets back. -/
theorem sum_paid (s : PollStore) (os : List Opening) (a : AccountId) :
    ((os.filterMap s.resolution?).map (Resolution.paid · a)).sum =
      withheld (os.filter fun o =>
        s.outcomes.get? o.tx.id = some .approved ∧ o.tx.recipient = some a) +
      withheld (os.filter fun o => s.outcomes.get? o.tx.id = some .rejected ∧ o.tx.sender = a) := by
  induction os with
  | nil => rfl
  | cons o os ih =>
    rw [filterMap_cons_toList, List.map_append, List.sum_append, ih, List.filter_cons,
      List.filter_cons]
    cases hended : s.outcomes.get? o.tx.id with
    | none => simp [PollStore.resolution?, hended]
    | some outcome =>
      cases outcome with
      | approved =>
        by_cases hto : o.tx.recipient = some a
        · simp [PollStore.resolution?, hended, paid_approved, hto, withheld, Nat.add_assoc]
        · simp [PollStore.resolution?, hended, paid_approved, hto]
      | rejected =>
        by_cases hback : o.tx.sender = a
        · simp [PollStore.resolution?, hended, paid_rejected, hback, withheld, Nat.add_left_comm]
        · simp [PollStore.resolution?, hended, paid_rejected, hback]

/-! ### Runs -/

namespace Node

/-- If no request to reinstate a poll is lost, a run opens each identifier once and leaves it either
    pending or ended; the resolutions that it reports are those of the openings that have ended; and
    every balance has grown by what these give the account, wherever else requests were lost. -/
theorem run_escrow {ledger : Ledger} {faults : Faults} {calls : List (Config × Call)}
    {replies : List Reply} {n : Node} (hkept : ∀ k, faults.store k .reinstate = none)
    (hrun : (ofLedger ledger).run faults calls = (replies, n)) :
    ((openings calls replies).map (·.tx.id)).Nodup ∧
    (∀ id, n.polls.outcomes.get? id ≠ none → ∃ o ∈ openings calls replies, o.tx.id = id) ∧
    (∀ o ∈ openings calls replies,
      n.polls.pending.get? o.tx.id ≠ none ↔ n.polls.outcomes.get? o.tx.id = none) ∧
    (replies.flatMap Reply.resolutions).Perm
      ((openings calls replies).filterMap n.polls.resolution?) ∧
    (∀ r ∈ replies.flatMap Reply.resolutions, r.credited = none →
      r.outcome = .approved ∧
        ∃ o ∈ openings calls replies, o.tx.id = r.id ∧ o.tx.recipient = none) ∧
    ∀ a, (n.ledger.balance a).toNat =
      (ledger.balance a).toNat +
        withheld ((openings calls replies).filter fun o =>
          n.polls.outcomes.get? o.tx.id = some .approved ∧ o.tx.recipient = some a) +
        withheld ((openings calls replies).filter fun o =>
          n.polls.outcomes.get? o.tx.id = some .rejected ∧ o.tx.sender = a) := by
  obtain ⟨hsound, hregisters⟩ := run_registers hrun
  obtain ⟨ms, hmoves, hresolutions, hopenings⟩ := run_moves PollStore.sound_empty hrun
  have hperm : (replies.flatMap Reply.resolutions).Perm
      ((openings calls replies).filterMap n.polls.resolution?) := by
    rw [hresolutions, hopenings]
    exact hmoves.resolutions hkept PollStore.sound_empty PollStore.registers_empty .nil
  refine ⟨hregisters.nodup, ?_, ?_, hperm, ?_, ?_⟩
  · -- what has ended was opened
    intro id hended
    obtain ⟨outcome, houtcome⟩ := Option.ne_none_iff_exists'.1 hended
    exact hregisters.of_ended houtcome
  · -- what was opened is pending or has ended
    intro o ho
    constructor
    · intro hpending
      obtain ⟨p, hp⟩ := Option.ne_none_iff_exists'.1 hpending
      exact hsound.not_ended hp
    · intro hended
      exact (hregisters.kept ho).resolve_right fun hkept => hkept hended
  · -- only an approved poll without a recipient pays nobody
    intro r hr hnobody
    obtain ⟨o, ho, hend⟩ := List.mem_filterMap.1 (hperm.mem_iff.1 hr)
    obtain ⟨outcome, -, rfl⟩ := Option.map_eq_some_iff.1 hend
    cases outcome with
    | approved => exact ⟨rfl, o, ho, rfl, hnobody⟩
    | rejected => cases hnobody
  · -- the balances
    intro a
    rw [hmoves.balance a, ← hresolutions, (hperm.map _).sum_nat, sum_paid, Nat.add_assoc]
    rfl

/-! ### A run -/

/-- Three payments of which the first cannot be approved, as its recipient holds the greatest
    balance there is. -/
def phasedPayments : List (Config × Call) :=
  [phasedPayment 7 1 (some 2) 10, phasedPayment 8 1 none 3, phasedPayment 9 2 (some 1) 4,
    .commit 7, .rollback 7, .rollback 7, .commit 8].map (.standard, ·)

/-- The first attempt to give the first payment back is lost. -/
def lostCredit : Faults :=
  ⟨fun k _ => if k = 7 then some "timeout" else none, fun _ _ => none⟩

/-- The first payment goes back to its sender once, after two attempts that failed. -/
theorem run_escrow_given_back :
    (∀ k, lostCredit.store k .reinstate = none) ∧
      (((ofLedger fullLedger).run lostCredit phasedPayments).2.ledger.balance 1).toNat =
        5 + 10 := by
  have hkept : ∀ k, lostCredit.store k .reinstate = none := fun _ => rfl
  have hrun := (Prod.eta ((ofLedger fullLedger).run lostCredit phasedPayments)).symm
  obtain ⟨-, -, -, -, -, hbalance⟩ := run_escrow hkept hrun
  exact ⟨hkept, (hbalance 1).trans (by decide +kernel)⟩

end Node

end LedgerAppendix
