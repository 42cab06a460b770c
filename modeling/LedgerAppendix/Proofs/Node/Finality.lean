import LedgerAppendix.Proofs.Appendix.Set
import LedgerAppendix.Proofs.Node.Run
import Mathlib.Data.List.Nodup

/-!
# The end of a poll is final

A poll is reported as resolved at most once, and once its outcome is recorded, nothing that is asked
of the node afterwards changes it or releases the amount again. This does not depend on which
requests are lost, not even on whether a poll can be reinstated: reinstating is the only way back
from an outcome, and a node takes it only inside the very move that recorded the outcome.

So a poll comes from nowhere to pending and from there to its outcome, and a caller sees it move by
one of the two at a time, as no call both opens polls and resolves them.
-/

namespace LedgerAppendix

theorem Move.attempt?_of_resolution? {m : Move} {r : Resolution} (h : m.resolution? = some r) :
    m.attempt? = some r.id := by
  cases m with
  | released p outcome =>
    cases h
    rfl
  | _ => cases h

namespace Node

variable {faults : Faults} {n n' : Node} {id : TransactionId} {outcome : PollOutcome}

/-! ### At most one resolution -/

/-- Some resolutions are of different polls, and the store has their outcomes. -/
structure Reported (s : PollStore) (rs : List Resolution) : Prop where
  nodup : (rs.map (·.id)).Nodup
  ended : ∀ r ∈ rs, s.outcomes.get? r.id = some r.outcome

theorem Step.reported {m : Move} {rs : List Resolution} (h : n.Step faults m n')
    (hs : n.polls.Sound) (hr : Reported n.polls rs) :
    Reported n'.polls (rs ++ m.resolution?.toList) := by
  have hold : ∀ r ∈ rs, n'.polls.outcomes.get? r.id = some r.outcome := by
    intro r hmem
    exact (h.ended hs (hr.ended r hmem)).1
  cases hm : m.resolution? with
  | none =>
    rw [Option.toList_none, List.append_nil]
    exact ⟨hr.nodup, hold⟩
  | some r =>
    obtain ⟨hnone, hsome⟩ : n.polls.outcomes.get? r.id = none ∧
        n'.polls.outcomes.get? r.id = some r.outcome := by
      cases h with
      | released _ hpending =>
        cases hm
        exact ⟨hs.not_ended hpending, (PollStore.outcomes_finish ..).trans (if_pos rfl)⟩
      | _ => cases hm
    -- the poll was pending until now, while all in `rs` have outcomes already
    have hnew : r.id ∉ rs.map (·.id) := by
      intro hmem
      obtain ⟨r', hr', hid⟩ := List.mem_map.1 hmem
      have hended := hr.ended r' hr'
      rw [hid, hnone] at hended
      cases hended
    constructor
    · rw [Option.toList_some, List.map_append, List.map_singleton]
      exact List.concat_eq_append ▸ hr.nodup.concat hnew
    · intro r' hr'
      rcases List.mem_append.1 hr' with hr' | hr'
      · exact hold r' hr'
      · rw [List.mem_singleton.1 hr']
        exact hsome

theorem Moves.reported {ms : List Move} {rs : List Resolution} (h : n.Moves faults ms n')
    (hs : n.polls.Sound) (hr : Reported n.polls rs) :
    Reported n'.polls (rs ++ ms.filterMap Move.resolution?) := by
  induction h generalizing rs with
  | nil =>
    rw [List.filterMap_nil, List.append_nil]
    exact hr
  | cons hstep _ ih =>
    rw [filterMap_cons_toList, ← List.append_assoc]
    exact ih (hstep.sound hs) (hstep.reported hs hr)

/-! ### What is said of a poll that has ended -/

/-- Where no poll is pending, its outcome is asked for, and the answer goes by it. -/
theorem resolve_of_missing (hs : n.polls.Sound) (hmissing : n.polls.pending.get? id = none)
    (o : PollOutcome) (hretire : faults.store n.requests .retire = none)
    (hkept : faults.store (n.requests + 1) .outcome = none) :
    n.resolve faults id o =
      (.error ((n.polls.outcomes.get? id).elim (.notFound id) (.alreadyResolved id)),
        n.tick.tick) := by
  have hnone : n.retirePoll faults id o = (.ok none, n.tick) :=
    askStore_of_answers hretire
      (PollStore.retire_eq_ok_iff.2 ⟨hs.isAvailable, hmissing, rfl⟩)
  rw [resolve, hnone]
  dsimp only
  rw [missingPoll_of_kept (n := n.tick) hs id hkept]
  rfl

theorem vote_of_missing (hs : n.polls.Sound) (hmissing : n.polls.pending.get? id = none)
    (voter : AccountId) (height : UInt32) (hget : faults.store n.requests .get = none)
    (hkept : faults.store (n.requests + 1) .outcome = none) :
    n.vote faults id voter height =
      (.error ((n.polls.outcomes.get? id).elim (.notFound id) (.alreadyResolved id)),
        n.tick.tick) := by
  rw [vote, getPoll_of_kept hs id hget, hmissing]
  dsimp only
  rw [missingPoll_of_kept (n := n.tick) hs id hkept]
  rfl

theorem status_of_missing (hs : n.polls.Sound) (hmissing : n.polls.pending.get? id = none)
    (hget : faults.store n.requests .get = none)
    (hkept : faults.store (n.requests + 1) .outcome = none) :
    n.status faults id =
      ((n.polls.outcomes.get? id).elim (.error (.notFound id)) fun outcome =>
        .ok (.resolved outcome), n.tick.tick) := by
  have houtcome : n.tick.pollOutcome faults id = (.ok (n.polls.outcomes.get? id), n.tick.tick) :=
    pollOutcome_of_kept (n := n.tick) hs id hkept
  rw [status, hasPoll_of_kept hs id hget, hmissing]
  dsimp only [Option.isSome_none]
  rw [houtcome]
  cases n.polls.outcomes.get? id with
  | none => rfl
  | some outcome => rfl

theorem applyPhasing_of_ended {tx : Transaction} {p : Phasing} {effect : Effect}
    (hended : n.polls.outcomes.get? tx.id = some outcome)
    (h : n.applyPhasing faults tx p = (effect, n')) : effect = .pollNotStored tx.id := by
  rcases applyPhasing_cases h with ⟨hopens, -⟩ | ⟨-, heffect, -⟩
  · rw [hopens.ended] at hended
    cases hended
  · exact heffect

/-- A phasing under the identifier of a poll that has ended opens nothing. -/
theorem applyEach_of_ended {tx : Transaction} {as : List Appendix} {es : List Effect} {p : Phasing}
    (hs : n.polls.Sound) (hended : n.polls.outcomes.get? tx.id = some outcome)
    (h : n.applyEach faults tx as = (es, n')) (hp : .phasing p ∈ as) :
    (.phasing p, .pollNotStored tx.id) ∈ as.zip es := by
  induction as generalizing n es with
  | nil => cases hp
  | cons a as ih =>
    obtain ⟨effect, n₁, rest, happly, hrest, rfl⟩ := of_applyEach_cons h
    rw [List.zip_cons_cons]
    rcases List.mem_cons.1 hp with rfl | hp
    · rw [applyPhasing_of_ended hended happly]
      exact List.mem_cons_self
    · obtain ⟨m, hstep, -⟩ := applyAppendix_step happly
      exact List.mem_cons_of_mem _ (ih (hstep.sound hs) (hstep.ended hs hended).1 hrest hp)

/-- What a node answers where a poll has ended, whatever the configuration. Each of the first four
    calls makes two requests to the store, and the answer is sure if neither is lost. -/
structure TellsEnd (n : Node) (faults : Faults) (id : TransactionId) (outcome : PollOutcome) :
    Prop where
  commit : ∀ config, faults.store n.requests .retire = none →
    faults.store (n.requests + 1) .outcome = none →
    n.perform faults config (.commit id) =
      (.resolution (.error (.alreadyResolved id outcome)), n.tick.tick)
  rollback : ∀ config, faults.store n.requests .retire = none →
    faults.store (n.requests + 1) .outcome = none →
    n.perform faults config (.rollback id) =
      (.resolution (.error (.alreadyResolved id outcome)), n.tick.tick)
  vote : ∀ config voter height, faults.store n.requests .get = none →
    faults.store (n.requests + 1) .outcome = none →
    n.perform faults config (.vote id voter height) =
      (.tally (.error (.alreadyResolved id outcome)), n.tick.tick)
  status : ∀ config, faults.store n.requests .get = none →
    faults.store (n.requests + 1) .outcome = none →
    n.perform faults config (.status id) = (.status (.ok (.resolved outcome)), n.tick.tick)
  apply : ∀ config tx s p, tx.id = id → s.phasing = some p →
    ∃ es, (n.perform faults config (.apply tx s)).1 = .effects es ∧
      (.phasing p, .pollNotStored id) ∈ s.toList.zip es

theorem tellsEnd_of_ended (hs : n.polls.Sound) (hended : n.polls.outcomes.get? id = some outcome) :
    n.TellsEnd faults id outcome := by
  have hmissing := hs.not_pending hended
  constructor
  case commit =>
    intro config hretire hkept
    rw [perform, commit, resolve_of_missing hs hmissing .approved hretire hkept, hended]
    rfl
  case rollback =>
    intro config hretire hkept
    rw [perform, rollback, resolve_of_missing hs hmissing .rejected hretire hkept, hended]
    rfl
  case vote =>
    intro config voter height hget hkept
    rw [perform, vote_of_missing hs hmissing voter height hget hkept, hended]
    rfl
  case status =>
    intro config hget hkept
    rw [perform, status_of_missing hs hmissing hget hkept, hended]
    rfl
  case apply =>
    rintro config tx s p rfl hp
    exact ⟨(n.apply faults tx s).1, rfl,
      applyEach_of_ended hs hended rfl (AppendixSet.mem_toList_phasing.2 hp)⟩

end Node

/-! ### Where a poll stands between calls -/

/-- Where a poll stands, by the tables of a store. -/
def PollStore.statusOf (s : PollStore) (id : TransactionId) : Except PollError PollStatus :=
  match s.pending.get? id, s.outcomes.get? id with
  | some _, _ => .ok .pending
  | none, some outcome => .ok (.resolved outcome)
  | none, none => .error (.notFound id)

theorem PollStore.statusOf_put (s : PollStore) (p : Poll) (id : TransactionId) :
    (s.put p).statusOf id = if p.id = id then .ok .pending else s.statusOf id := by
  by_cases hid : p.id = id
  · rw [statusOf, pending_put, if_pos hid, if_pos hid]
  · rw [statusOf, pending_put, if_neg hid, if_neg hid]
    rfl

theorem PollStore.statusOf_finish (s : PollStore) (j : TransactionId) (outcome : PollOutcome)
    (id : TransactionId) :
    (s.finish j outcome).statusOf id =
      if j = id then .ok (.resolved outcome) else s.statusOf id := by
  by_cases hid : j = id
  · rw [statusOf, pending_finish, outcomes_finish, if_pos hid, if_pos hid, if_pos hid]
  · rw [statusOf, pending_finish, outcomes_finish, if_neg hid, if_neg hid, if_neg hid]
    rfl

theorem PollStore.statusOf_of_pending {s : PollStore} {id : TransactionId} {p : Poll}
    (h : s.pending.get? id = some p) : s.statusOf id = .ok .pending := by
  rw [statusOf, h]

/-- Retiring a poll takes it from pending to its outcome, and no other poll from where it stands. -/
theorem PollStore.statusOf_finish_cases {s : PollStore} {j : TransactionId} {p : Poll}
    (hp : s.pending.get? j = some p) (outcome : PollOutcome) (id : TransactionId) :
    (s.finish j outcome).statusOf id = s.statusOf id ∨
      s.statusOf id = .ok .pending ∧
        (s.finish j outcome).statusOf id = .ok (.resolved outcome) := by
  rw [statusOf_finish]
  by_cases hid : j = id
  · subst hid
    exact .inr ⟨statusOf_of_pending hp, if_pos rfl⟩
  · exact .inl (if_neg hid)

theorem PollStore.statusOf_of_new {s : PollStore} {id : TransactionId}
    (hpending : s.pending.get? id = none) (hended : s.outcomes.get? id = none) :
    s.statusOf id = .error (.notFound id) := by
  rw [statusOf, hpending, hended]

theorem PollStore.statusOf_eq_notFound_iff {s : PollStore} {id : TransactionId} :
    s.statusOf id = .error (.notFound id) ↔
      s.pending.get? id = none ∧ s.outcomes.get? id = none := by
  refine ⟨fun h => ?_, fun h => statusOf_of_new h.1 h.2⟩
  unfold statusOf at h
  split at h
  · cases h
  · cases h
  · next hpending hended => exact ⟨hpending, hended⟩

/-- How a poll may move between two calls. -/
inductive Advances (id : TransactionId) :
    Except PollError PollStatus → Except PollError PollStatus → Prop
  | stays (r : Except PollError PollStatus) : Advances id r r
  | opens : Advances id (.error (.notFound id)) (.ok .pending)
  | ends (outcome : PollOutcome) : Advances id (.ok .pending) (.ok (.resolved outcome))

namespace Node

variable {faults : Faults} {n n' : Node}

/-- The tables say what the node would answer if no request were lost. -/
theorem status_none (hs : n.polls.Sound) (id : TransactionId) :
    (n.status .none id).1 = n.polls.statusOf id := by
  unfold PollStore.statusOf
  cases hpending : n.polls.pending.get? id with
  | some p =>
    rw [status, hasPoll_of_kept hs id rfl, hpending]
    rfl
  | none =>
    rw [status_of_missing hs hpending rfl rfl]
    cases n.polls.outcomes.get? id with
    | none => rfl
    | some outcome => rfl

/-- A move that opens a poll takes it from nowhere to pending, one that retires a poll takes it from
    pending to an outcome, and no other move changes where a poll stands. -/
theorem Step.statusOf {m : Move} (h : n.Step faults m n') (id : TransactionId) :
    n'.polls.statusOf id = n.polls.statusOf id ∨
      (m.opening? ≠ none ∧ n.polls.statusOf id = .error (.notFound id) ∧
        n'.polls.statusOf id = .ok .pending) ∨
      ∃ outcome, m.attempt? ≠ none ∧ n.polls.statusOf id = .ok .pending ∧
        n'.polls.statusOf id = .ok (.resolved outcome) := by
  cases h with
  | idle => exact .inl rfl
  | bound => exact .inl rfl
  | @opened o _ hpending hended =>
    by_cases hid : o.tx.id = id
    · -- the poll that is opened was unknown, and is pending now
      refine .inr (.inl ⟨Option.some_ne_none o, ?_, ?_⟩)
      · rw [← hid, PollStore.statusOf_of_new hpending hended]
      · exact (PollStore.statusOf_put ..).trans (if_pos hid)
    · -- any other poll
      exact .inl ((PollStore.statusOf_put ..).trans (if_neg hid))
  | @voted p _ _ _ _ hpending =>
    by_cases hid : p.id = id
    · -- the poll that is voted on was pending, and still is
      refine .inl ((PollStore.statusOf_put ..).trans ?_)
      rw [← hid, PollStore.statusOf_of_pending hpending]
      exact if_pos rfl
    · -- any other poll
      exact .inl ((PollStore.statusOf_put ..).trans (if_neg hid))
  | @released p outcome _ _ hpending =>
    refine (PollStore.statusOf_finish_cases hpending outcome id).imp_right fun hends => ?_
    exact .inr ⟨outcome, Option.some_ne_none _, hends⟩
  | restored => exact .inl rfl
  | @stranded p outcome _ _ _ _ _ _ hpending =>
    refine (PollStore.statusOf_finish_cases hpending outcome id).imp_right fun hends => ?_
    exact .inr ⟨outcome, Option.some_ne_none _, hends⟩

/-- Without a release, polls can only be opened. -/
theorem Moves.statusOf_of_no_attempt {ms : List Move} (h : n.Moves faults ms n')
    (hms : ∀ m ∈ ms, m.attempt? = none) (id : TransactionId) :
    n'.polls.statusOf id = n.polls.statusOf id ∨
      n.polls.statusOf id = .error (.notFound id) ∧ n'.polls.statusOf id = .ok .pending := by
  induction h with
  | nil => exact .inl rfl
  | cons hstep _ ih =>
    obtain ⟨hm, hms⟩ := List.forall_mem_cons.1 hms
    rcases hstep.statusOf id with hsame | ⟨-, hbefore, hafter⟩ | ⟨outcome, hattempt, -⟩
    · rw [← hsame]
      exact ih hms
    · -- what was just opened is known, and so it is not opened a second time
      rcases ih hms with hrest | ⟨hrest, -⟩
      · exact .inr ⟨hbefore, hrest.trans hafter⟩
      · rw [hafter] at hrest
        cases hrest
    · exact absurd hm hattempt

/-- Where no poll is opened, polls can only end. -/
theorem Moves.statusOf_of_no_opening {ms : List Move} (h : n.Moves faults ms n')
    (hms : ∀ m ∈ ms, m.opening? = none) (id : TransactionId) :
    n'.polls.statusOf id = n.polls.statusOf id ∨
      ∃ outcome, n.polls.statusOf id = .ok .pending ∧
        n'.polls.statusOf id = .ok (.resolved outcome) := by
  induction h with
  | nil => exact .inl rfl
  | cons hstep _ ih =>
    obtain ⟨hm, hms⟩ := List.forall_mem_cons.1 hms
    rcases hstep.statusOf id with hsame | ⟨hopening, -⟩ | ⟨outcome, -, hbefore, hafter⟩
    · rw [← hsame]
      exact ih hms
    · exact absurd hm hopening
    · -- nor does what has just ended end again
      rcases ih hms with hrest | ⟨_, hrest, -⟩
      · exact .inr ⟨outcome, hbefore, hrest.trans hafter⟩
      · rw [hafter] at hrest
        cases hrest

theorem perform_advances (hs : n.polls.Sound) {config : Config} {call : Call} {reply : Reply}
    (h : n.perform faults config call = (reply, n')) (id : TransactionId) :
    Advances id (n.status .none id).1 (n'.status .none id).1 := by
  obtain ⟨ms, hmoves, -, -, hms⟩ := perform_moves hs h
  rw [status_none hs, status_none (hmoves.sound hs)]
  rcases hms with hopenings | hattempts
  · -- a call that opens no poll
    rcases hmoves.statusOf_of_no_opening hopenings id with hsame | ⟨outcome, hbefore, hafter⟩
    · rw [hsame]
      exact .stays _
    · rw [hbefore, hafter]
      exact .ends outcome
  · -- a call that ends no poll
    rcases hmoves.statusOf_of_no_attempt hattempts id with hsame | ⟨hbefore, hafter⟩
    · rw [hsame]
      exact .stays _
    · rw [hbefore, hafter]
      exact .opens

/-! ### Runs -/

/-- Over a run, a poll is reported as resolved at most once. Once its outcome is recorded, it stays,
    whatever is called for later: the poll is not pending again, no release of its amount is
    attempted, and every balance grows by later resolutions of other polls alone. Calls about the
    poll say that it has ended, and between any two calls it moves by one stage at most. -/
theorem run_final {ledger : Ledger} {calls : List (Config × Call)} {replies : List Reply}
    (hrun : (ofLedger ledger).run faults calls = (replies, n)) :
    ((replies.flatMap Reply.resolutions).map (·.id)).Nodup ∧
    (∀ id outcome, n.polls.outcomes.get? id = some outcome →
      ∀ later replies' n', n.run faults later = (replies', n') →
        n'.polls.outcomes.get? id = some outcome ∧
        n'.polls.pending.get? id = none ∧
        (∀ r ∈ replies'.flatMap Reply.resolutions, r.id ≠ id) ∧
        n'.journal.filter (Event.isReleaseOf id) = n.journal.filter (Event.isReleaseOf id) ∧
        (∀ a, (n'.ledger.balance a).toNat =
          (n.ledger.balance a).toNat +
            ((replies'.flatMap Reply.resolutions).map (Resolution.paid · a)).sum) ∧
        n'.TellsEnd faults id outcome) ∧
    ∀ id config call reply n', n.perform faults config call = (reply, n') →
      Advances id (n.status .none id).1 (n'.status .none id).1 := by
  obtain ⟨ms, hmoves, hresolutions, -⟩ := run_moves PollStore.sound_empty hrun
  have hs := hmoves.sound PollStore.sound_empty
  refine ⟨?_, ?_, ?_⟩
  · -- reported once
    rw [hresolutions]
    have hnone : Reported (ofLedger ledger).polls [] := ⟨List.nodup_nil, List.forall_mem_nil _⟩
    exact (hmoves.reported PollStore.sound_empty hnone).nodup
  · -- once ended, whatever comes later
    intro id outcome hended later replies' n' hlater
    obtain ⟨ms', hmoves', hresolutions', -⟩ := run_moves hs hlater
    obtain ⟨hkept, hattempts, hjournal⟩ := hmoves'.ended hs hended
    have hs' := hmoves'.sound hs
    refine ⟨hkept, hs'.not_pending hkept, ?_, hjournal, ?_, tellsEnd_of_ended hs' hkept⟩
    · -- no other resolution of it
      intro r hr hid
      rw [hresolutions'] at hr
      obtain ⟨m, hm, hmr⟩ := List.mem_filterMap.1 hr
      apply hattempts m hm
      rw [Move.attempt?_of_resolution? hmr, hid]
    · -- balances
      intro a
      rw [hresolutions']
      exact hmoves'.balance a
  · -- by one stage at most
    intro id config call reply n' hperform
    exact perform_advances hs hperform id

/-! ### A run -/

/-- A payment that waits for one vote. -/
def phasedPayment (id : TransactionId) (sender : AccountId) (recipient : Option AccountId)
    (amount : UInt64) : Call :=
  .apply ⟨id, 1, .ordinaryPayment, sender, recipient, amount, 100⟩
    { AppendixSet.empty with phasing := some ⟨1, 200, 1, 0, .account, []⟩ }

/-- A ledger that will not take anything more for the second account. -/
def fullLedger : Ledger := (Ledger.empty.setBalance 1 5).setBalance 2 maxWord

/-- No poll can be reinstated. -/
def lostReinstate : Faults :=
  ⟨fun _ _ => none, fun _ request => if request = .reinstate then some "timeout" else none⟩

/-- A payment is approved that cannot be released, and so it is neither released nor pending. -/
def strandedNode : Node :=
  ((ofLedger fullLedger).run lostReinstate
    [(.standard, phasedPayment 7 1 (some 2) 10), (.standard, .commit 7)]).2

/-- Rejecting it then does not give the amount back: the poll has been approved. -/
theorem run_final_stranded :
    strandedNode.polls.outcomes.get? 7 = some .approved ∧
      strandedNode.perform lostReinstate .standard (.rollback 7) =
        (.resolution (.error (.alreadyResolved 7 .approved)), strandedNode.tick.tick) ∧
      ∀ later, (strandedNode.run lostReinstate later).2.polls.outcomes.get? 7 = some .approved := by
  have hended : strandedNode.polls.outcomes.get? 7 = some .approved := by decide +kernel
  have hrun := (Prod.eta ((ofLedger fullLedger).run lostReinstate
    [(.standard, phasedPayment 7 1 (some 2) 10), (.standard, .commit 7)])).symm
  obtain ⟨-, hfinal, -⟩ := run_final hrun
  obtain ⟨-, -, -, -, -, htells⟩ := hfinal 7 .approved hended [] [] _ rfl
  refine ⟨hended, htells.rollback .standard rfl rfl, ?_⟩
  intro later
  exact (hfinal 7 .approved hended later _ _ (Prod.eta _).symm).1

end Node

end LedgerAppendix
