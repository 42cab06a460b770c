import LedgerAppendix.Proofs.Appendix.Rules
import LedgerAppendix.Proofs.Node.Finality

/-!
# The counters tell the truth

A node counts in four places: where it opens a poll, where the store does not take one, where a poll
has ended, and where an appendix is refused on admission. Two things are held against these counts.

The first is the state. Every move keeps to it that as many polls were opened as are pending or have
ended, and that as many ended with an outcome as have it (`Counted`). So a poll that is retired and
reinstated must not count, nor one that the store knows already; an outcome that is not counted
takes a lost request to reinstate a poll. The second is what callers were told (`Adds`): a poll that
was not stored counts just if an effect says so, and a refusal counts once, under the name of the
appendix that the set was refused for.
-/

namespace LedgerAppendix

/-! ### What callers are told -/

def Effect.isPollNotStored : Effect → Bool
  | .pollNotStored _ => true
  | _ => false

/-- The effects that a reply lists. -/
def Reply.listed : Reply → List Effect
  | .effects es => es
  | _ => []

/-- Whether the reply is that a set of appendices is not admitted. -/
def Reply.isNotAdmitted : Reply → Bool
  | .admission (.error _) => true
  | _ => false

/-- No two kinds have the same name, so each of them has a counter of its own. -/
theorem Kind.name_inj {j k : Kind} : j.name = k.name ↔ j = k := by
  cases j <;> cases k <;> decide

/-- Number of appendices of any kind that were refused on admission. -/
def Journal.allRefusals (j : Journal) : Nat := (Kind.all.map j.refusals).sum

theorem Journal.allRefusals_of_refusal {j j' : Journal} {k : Kind}
    (h : ∀ kind, j'.refusals kind = j.refusals kind + if k = kind then 1 else 0) :
    j'.allRefusals = j.allRefusals + 1 := by
  simp only [allRefusals, Kind.all, List.map_cons, List.map_nil, List.sum_cons, List.sum_nil, h]
  cases k <;> simp <;> omega

namespace Journal

variable (j : Journal) (es : List Event)

@[simp] theorem pollsOpened_append :
    Journal.pollsOpened (j ++ es) = j.pollsOpened + es.countP Event.isPollOpened :=
  List.countP_append

@[simp] theorem pollsResolved_append (outcome : PollOutcome) :
    Journal.pollsResolved (j ++ es) outcome =
      j.pollsResolved outcome + es.countP (Event.isResolvedAs outcome) :=
  List.countP_append

@[simp] theorem pollsNotStored_append :
    Journal.pollsNotStored (j ++ es) = j.pollsNotStored + es.countP Event.isPollNotStored :=
  List.countP_append

@[simp] theorem refusals_append (kind : Kind) :
    Journal.refusals (j ++ es) kind = j.refusals kind + es.countP (Event.isRefusalOf kind) :=
  List.countP_append

end Journal

namespace Event

theorem isPollOpened_of_isNote {e : Event} (h : e.isNote) : e.isPollOpened = false := by
  cases e <;> first | rfl | cases h

theorem isResolvedAs_of_isNote {e : Event} (h : e.isNote) (outcome : PollOutcome) :
    e.isResolvedAs outcome = false := by
  cases e <;> first | rfl | cases h

end Event

/-! ### How many polls a store has -/

namespace PollStore

variable {s : PollStore} {p : Poll} {id : TransactionId}

theorem pendingCount_put_of_new (h : s.pending.get? p.id = none) :
    (s.put p).pendingCount = s.pendingCount + 1 :=
  Table.size_insert p h

theorem pendingCount_put_of_pending {old : Poll} (h : s.pending.get? p.id = some old) :
    (s.put p).pendingCount = s.pendingCount :=
  Table.size_insert_of_known p h

theorem pendingCount_finish (h : s.pending.get? id = some p) (outcome : PollOutcome) :
    (s.finish id outcome).pendingCount + 1 = s.pendingCount :=
  Table.size_erase h

theorem size_outcomes_finish (h : s.outcomes.get? id = none) (outcome : PollOutcome) :
    (s.finish id outcome).outcomes.size = s.outcomes.size + 1 :=
  Table.size_insert outcome h

theorem count_outcomes_finish (h : s.outcomes.get? id = none) (outcome o : PollOutcome) :
    (s.finish id outcome).outcomes.values.count o =
      s.outcomes.values.count o + if outcome = o then 1 else 0 := by
  have hperm : (s.finish id outcome).outcomes.values.Perm (outcome :: s.outcomes.values) :=
    Table.perm_values_insert outcome h
  simp [hperm.count_eq, List.count_cons]

end PollStore

namespace Node

variable {faults : Faults} {n n' n'' : Node}

/-! ### The counters and the tables -/

/-- The polls that were opened are the pending ones and those with an outcome, and the polls that
    ended with an outcome are those that have it. -/
structure Counted (n : Node) : Prop where
  opened : n.journal.pollsOpened = n.polls.pendingCount + n.polls.outcomes.size
  resolved : ∀ outcome, n.journal.pollsResolved outcome = n.polls.outcomes.values.count outcome

theorem counted_ofLedger (ledger : Ledger) : (ofLedger ledger).Counted := ⟨rfl, fun _ => rfl⟩

/-- Where no poll is opened or ends and the tables keep their sizes, nothing has to be counted. -/
theorem Counted.of_uncounted (hc : n.Counted) {es : List Event}
    (hjournal : n'.journal = n.journal ++ es) (hopened : es.countP Event.isPollOpened = 0)
    (hresolved : ∀ outcome, es.countP (Event.isResolvedAs outcome) = 0)
    (hpending : n'.polls.pendingCount = n.polls.pendingCount)
    (houtcomes : n'.polls.outcomes = n.polls.outcomes) : n'.Counted := by
  constructor
  · simp [hjournal, hopened, hpending, houtcomes, hc.opened]
  · intro outcome
    simp [hjournal, hresolved, houtcomes, hc.resolved]

/-- A move keeps the counters true, if no request to reinstate a poll is lost. -/
theorem Step.counted (hkept : ∀ k, faults.store k .reinstate = none) {m : Move}
    (h : n.Step faults m n') (hs : n.polls.Sound) (hc : n.Counted) : n'.Counted := by
  have hjournal := h.journal
  cases h with
  | @idle notes _ hnotes =>
    refine hc.of_uncounted hjournal ?_ ?_ rfl rfl
    · -- notes open no poll
      refine List.countP_eq_zero.2 fun e he => ?_
      simp [Event.isPollOpened_of_isNote (hnotes e he)]
    · -- and resolve none
      intro outcome
      refine List.countP_eq_zero.2 fun e he => ?_
      simp [Event.isResolvedAs_of_isNote (hnotes e he)]
  | bound => exact hc.of_uncounted hjournal rfl (fun _ => rfl) rfl rfl
  | @opened o _ hpending =>
    have hpending : (n.polls.put o.poll).pendingCount = n.polls.pendingCount + 1 :=
      PollStore.pendingCount_put_of_new hpending
    constructor
    · -- one poll more is opened, and one more is pending
      rw [hjournal, Journal.pollsOpened_append, hc.opened, hpending]
      exact Nat.add_right_comm ..
    · -- none is resolved
      intro outcome
      rw [hjournal, Journal.pollsResolved_append]
      exact hc.resolved outcome
  | voted _ hpending =>
    exact hc.of_uncounted hjournal rfl (fun _ => rfl)
      (PollStore.pendingCount_put_of_pending hpending) rfl
  | @released p outcome _ _ hpending =>
    -- the identifier moves from the one table to the other, so their sizes add up to the same
    have hended := hs.not_ended hpending
    have hleft := PollStore.pendingCount_finish hpending outcome
    have hsize := PollStore.size_outcomes_finish hended outcome
    constructor
    · -- none is opened
      have hnone : (Move.released p outcome).events.countP Event.isPollOpened = 0 := rfl
      rw [hjournal, Journal.pollsOpened_append, hc.opened, hnone, hsize, ← hleft]
      exact Nat.add_right_comm _ 1 n.polls.outcomes.size
    · -- one is resolved by this outcome, and none by the other
      intro o
      rw [hjournal, Journal.pollsResolved_append, hc.resolved,
        PollStore.count_outcomes_finish hended]
      simp [Move.events, Event.isResolvedAs, List.countP_cons]
  | restored => exact hc.of_uncounted hjournal rfl (fun _ => rfl) rfl rfl
  | stranded j _ _ _ hlost =>
    rw [hkept j] at hlost
    cases hlost

theorem Moves.counted (hkept : ∀ k, faults.store k .reinstate = none) {ms : List Move}
    (h : n.Moves faults ms n') (hs : n.polls.Sound) (hc : n.Counted) : n'.Counted := by
  induction h with
  | nil => exact hc
  | cons hstep _ ih => exact ih (hstep.sound hs) (hstep.counted hkept hs hc)

/-! ### The counters and the replies -/

/-- By how much the other two counters have grown: that of the polls that were not stored, and, kind
    by kind, that of the refused appendices. -/
structure Adds (n n' : Node) (notStored : Nat) (refused : Kind → Nat) : Prop where
  notStored : n'.journal.pollsNotStored = n.journal.pollsNotStored + notStored
  refused : ∀ kind, n'.journal.refusals kind = n.journal.refusals kind + refused kind

/-- Neither of the two has grown. -/
def Quiet (n n' : Node) : Prop := n.Adds n' 0 fun _ => 0

theorem adds_of_journal {es : List Event} (h : n'.journal = n.journal ++ es) :
    n.Adds n' (es.countP Event.isPollNotStored) fun kind => es.countP (Event.isRefusalOf kind) := by
  constructor
  · simp [h]
  · intro kind
    simp [h]

theorem quiet_of_journal {es : List Event} (h : n'.journal = n.journal ++ es)
    (hnotStored : es.countP Event.isPollNotStored = 0)
    (hrefused : ∀ kind, es.countP (Event.isRefusalOf kind) = 0) : n.Quiet n' := by
  have hadds := adds_of_journal h
  simp only [hnotStored, hrefused] at hadds
  exact hadds

theorem quiet_of_unwritten (h : n'.journal = n.journal) : n.Quiet n' :=
  quiet_of_journal (h.trans (List.append_nil _).symm) rfl fun _ => rfl

theorem Adds.trans {k k' : Nat} {r r' : Kind → Nat} (h : n.Adds n' k r)
    (h' : n'.Adds n'' k' r') : n.Adds n'' (k + k') fun kind => r kind + r' kind := by
  constructor
  · rw [h'.notStored, h.notStored, Nat.add_assoc]
  · intro kind
    rw [h'.refused, h.refused, Nat.add_assoc]

theorem Quiet.trans (h : n.Quiet n') (h' : n'.Quiet n'') : n.Quiet n'' := Adds.trans h h'

theorem vote_quiet {id : TransactionId} {voter : AccountId} {height : UInt32}
    {r : Except PollError UInt64} (h : n.vote faults id voter height = (r, n')) : n.Quiet n' := by
  rcases vote_cases h with ⟨e, k, -, rfl⟩ | ⟨p, weight, -, -, -, -, -, k, rfl⟩
  · exact quiet_of_unwritten rfl
  · exact quiet_of_journal rfl rfl fun _ => rfl

theorem resolve_quiet (hs : n.polls.Sound) {id : TransactionId} {outcome : PollOutcome}
    {r : Except PollError Resolution} (h : n.resolve faults id outcome = (r, n')) :
    n.Quiet n' := by
  rcases resolve_cases hs h with ⟨-, p, ledger, k, -, -, -, -, rfl⟩ |
    ⟨-, p, account, error, fault, k, -, -, -, -, rfl⟩ |
    ⟨-, -, e, -, ⟨k, rfl⟩ | ⟨p, account, error, k, -, -, rfl⟩⟩
  · exact quiet_of_journal rfl rfl fun _ => rfl
  · exact quiet_of_journal rfl rfl fun _ => rfl
  · exact quiet_of_unwritten rfl
  · exact quiet_of_journal rfl rfl fun _ => rfl

theorem resolveEach_quiet (hs : n.polls.Sound) {early : Bool} {height : UInt32} {ps : List Poll}
    {report : HeightReport} (h : n.resolveEach faults early height ps = (report, n')) :
    n.Quiet n' := by
  induction ps generalizing n report with
  | nil =>
    cases h
    exact quiet_of_unwritten rfl
  | cons p ps ih =>
    rcases resolveEach_cons_cases h with ⟨-, hrest⟩ |
      ⟨outcome, r, n₁, rest, -, hresolve, hrest, -⟩ |
      ⟨outcome, e, n₁, rest, -, hresolve, hrest, -⟩
    · exact ih hs hrest
    · obtain ⟨m, hstep, -⟩ := resolve_step hs hresolve
      exact (resolve_quiet hs hresolve).trans (ih (hstep.sound hs) hrest)
    · obtain ⟨m, hstep, -⟩ := resolve_step hs hresolve
      have hleft : n₁.Quiet (n₁.record (.pollLeft p.id height e)) :=
        quiet_of_journal rfl rfl fun _ => rfl
      exact (resolve_quiet hs hresolve).trans (hleft.trans (ih (hstep.sound hs) hrest))

theorem resolveDue_quiet (hs : n.polls.Sound) {early : Bool} {height : UInt32}
    {r : Except PollError HeightReport} (h : n.resolveDue faults early height = (r, n')) :
    n.Quiet n' := by
  have hasked : n.Quiet n.tick := quiet_of_unwritten rfl
  rcases resolveDue_cases h with ⟨e, -, rfl⟩ | ⟨report, n₁, -, heach, hdone⟩
  · exact hasked
  · have heach := hasked.trans (resolveEach_quiet (n := n.tick) hs heach)
    rcases hdone with rfl | rfl
    · exact heach
    · exact heach.trans (quiet_of_journal rfl rfl fun _ => rfl)

theorem parseBytes_quiet {limits : Limits} {flags : UInt32} {data : List UInt8} {version : UInt8}
    {r : Except AppendixError AppendixSet}
    (h : n.parseBytes limits flags data version = (r, n')) : n.Quiet n' := by
  rcases parseBytes_cases h with ⟨-, rfl | ⟨e, rfl⟩⟩
  · exact quiet_of_unwritten rfl
  · exact quiet_of_journal rfl rfl fun _ => rfl

theorem parseObject_quiet {o : Json.Object} {r : Except AppendixError AppendixSet}
    (h : n.parseObject o = (r, n')) : n.Quiet n' := by
  rcases parseObject_cases h with ⟨-, rfl | ⟨e, rfl⟩⟩
  · exact quiet_of_unwritten rfl
  · exact quiet_of_journal rfl rfl fun _ => rfl

theorem status_quiet {id : TransactionId} {r : Except PollError PollStatus}
    (h : n.status faults id = (r, n')) : n.Quiet n' := by
  obtain ⟨k, rfl⟩ := of_status h
  exact quiet_of_unwritten rfl

theorem applyAppendix_adds {tx : Transaction} {a : Appendix} {effect : Effect}
    (h : n.applyAppendix faults tx a = (effect, n')) :
    n.Adds n' (if effect.isPollNotStored then 1 else 0) fun _ => 0 := by
  cases a with
  | announcement a =>
    cases applyAnnouncement_cases h with
    | idle => exact quiet_of_unwritten rfl
    | lost => exact quiet_of_journal rfl rfl fun _ => rfl
    | bound => exact quiet_of_journal rfl rfl fun _ => rfl
    | refused => exact quiet_of_journal rfl rfl fun _ => rfl
  | phasing p =>
    rcases applyPhasing_cases h with ⟨-, rfl, rfl⟩ | ⟨-, rfl, e, rfl⟩
    · -- the poll is opened
      exact quiet_of_journal rfl rfl fun _ => rfl
    · -- the poll is not stored
      have hjournal : (n.tick.record (.pollNotStored tx.id e)).journal =
          n.journal ++ [.pollNotStored tx.id e] := rfl
      exact adds_of_journal hjournal
  | message | encryptedMessage | encryptToSelf =>
    cases h
    exact quiet_of_unwritten rfl

theorem applyEach_adds {tx : Transaction} {as : List Appendix} {es : List Effect}
    (h : n.applyEach faults tx as = (es, n')) :
    n.Adds n' (es.countP Effect.isPollNotStored) fun _ => 0 := by
  induction as generalizing n es with
  | nil =>
    cases h
    exact quiet_of_unwritten rfl
  | cons a as ih =>
    obtain ⟨effect, n₁, rest, happly, hrest, rfl⟩ := of_applyEach_cons h
    have hadds := (applyAppendix_adds happly).trans (ih hrest)
    rw [List.countP_cons, Nat.add_comm]
    exact hadds

/-- An admission that is refused counts once, for the appendix that is to blame. -/
theorem validate_adds {limits : Limits} {tx : Transaction} {s : AppendixSet}
    {r : Except AppendixError Unit} (h : n.validate faults limits tx s = (r, n')) :
    (r = .ok () ∧ n.Quiet n') ∨
      ∃ a e, r = .error e ∧ s.RefusedFor tx limits (n.keys faults) a e ∧
        n.Adds n' 0 fun kind => if a.kind = kind then 1 else 0 := by
  rcases validate_cases h with ⟨-, rfl, rfl⟩ | ⟨refusal, hrefusal, rfl, rfl⟩
  · exact .inl ⟨rfl, quiet_of_unwritten rfl⟩
  · obtain ⟨a, hrefused, hkind⟩ := AppendixSet.refusedFor_of_refusal? hrefusal
    refine .inr ⟨a, refusal.error, rfl, hrefused, ?_⟩
    have hjournal : (n.tick.record (.notAdmitted tx.id refusal)).journal =
        n.journal ++ [.notAdmitted tx.id refusal] := rfl
    simpa [Event.isPollNotStored, Event.isRefusalOf, List.countP_cons, hkind] using
      adds_of_journal hjournal

/-- What a call adds to the counts of refusals, next to the reply: nothing, or one under the name of
    the appendix that the set is refused for, and then what the refusal says of it is the case. -/
inductive CountsRefusals (n : Node) (faults : Faults) (config : Config) : Call → Reply → Node → Prop
  | none {call : Call} {reply : Reply} {n' : Node} (hreply : reply.isNotAdmitted = false)
    (hsame : ∀ kind, n'.journal.refusals kind = n.journal.refusals kind) :
    CountsRefusals n faults config call reply n'
  | one {tx : Transaction} {s : AppendixSet} {a : Appendix} {e : AppendixError} {n' : Node}
    (hrefused : s.RefusedFor tx config.limits (n.keys faults) a e)
    (hwarranted : a.Warrants tx config.limits (n.keys faults) e)
    (hone : ∀ kind, n'.journal.refusals kind =
      n.journal.refusals kind + if a.kind.name = kind.name then 1 else 0) :
    CountsRefusals n faults config (.validate tx s) (.admission (.error e)) n'

theorem Adds.none {notStored : Nat} {config : Config} {call : Call} {reply : Reply}
    (h : n.Adds n' notStored fun _ => 0) (hreply : reply.isNotAdmitted = false) :
    n'.journal.pollsNotStored = n.journal.pollsNotStored + notStored ∧
      n.CountsRefusals faults config call reply n' :=
  ⟨h.notStored, .none hreply h.refused⟩

/-- A call counts as many polls that were not stored as it tells of, and refusals as it refuses. -/
theorem perform_adds (hs : n.polls.Sound) {config : Config} {call : Call} {reply : Reply}
    (h : n.perform faults config call = (reply, n')) :
    n'.journal.pollsNotStored =
        n.journal.pollsNotStored + reply.listed.countP Effect.isPollNotStored ∧
      n.CountsRefusals faults config call reply n' := by
  cases call with
  | parseBytes flags data version =>
    cases h
    exact (parseBytes_quiet rfl).none rfl
  | parseObject o =>
    cases h
    exact (parseObject_quiet rfl).none rfl
  | validate tx s =>
    cases hvalidate : n.validate faults config.limits tx s with
    | mk r m =>
      rw [perform, hvalidate] at h
      cases h
      rcases validate_adds hvalidate with ⟨rfl, hquiet⟩ | ⟨a, e, rfl, hrefused, hadds⟩
      · exact hquiet.none rfl
      · have hone : ∀ kind, m.journal.refusals kind =
            n.journal.refusals kind + if a.kind.name = kind.name then 1 else 0 := by
          simpa only [Kind.name_inj] using hadds.refused
        exact ⟨hadds.notStored, .one hrefused hrefused.warranted.2 hone⟩
  | apply tx s =>
    cases h
    exact (applyEach_adds rfl).none rfl
  | vote id voter height =>
    cases h
    exact (vote_quiet rfl).none rfl
  | commit id =>
    cases h
    exact (resolve_quiet hs rfl).none rfl
  | rollback id =>
    cases h
    exact (resolve_quiet hs rfl).none rfl
  | resolveDue height =>
    cases h
    exact (resolveDue_quiet hs rfl).none rfl
  | status id =>
    cases h
    exact (status_quiet rfl).none rfl

theorem CountsRefusals.allRefusals {config : Config} {call : Call} {reply : Reply}
    (h : n.CountsRefusals faults config call reply n') :
    n'.journal.allRefusals =
      n.journal.allRefusals + if reply.isNotAdmitted then 1 else 0 := by
  cases h with
  | none hreply hsame =>
    have hall : n'.journal.refusals = n.journal.refusals := funext hsame
    simp [Journal.allRefusals, hreply, hall]
  | one _ _ hone =>
    simp only [Kind.name_inj] at hone
    exact Journal.allRefusals_of_refusal hone

theorem run_adds (hs : n.polls.Sound) {calls : List (Config × Call)} {replies : List Reply}
    (h : n.run faults calls = (replies, n')) :
    n'.journal.pollsNotStored = n.journal.pollsNotStored +
        (replies.flatMap Reply.listed).countP Effect.isPollNotStored ∧
      n'.journal.allRefusals = n.journal.allRefusals + replies.countP Reply.isNotAdmitted := by
  induction calls generalizing n replies with
  | nil =>
    cases h
    exact ⟨rfl, rfl⟩
  | cons call calls ih =>
    obtain ⟨reply, n₁, rest, hperform, hrest, rfl⟩ := of_run_cons h
    obtain ⟨ms, hmoves, -⟩ := perform_moves hs hperform
    obtain ⟨hnotStored, hrefusals⟩ := perform_adds hs hperform
    obtain ⟨hnotStored', hrefusals'⟩ := ih (hmoves.sound hs) hrest
    constructor
    · rw [hnotStored', hnotStored, List.flatMap_cons, List.countP_append, Nat.add_assoc]
    · rw [hrefusals', hrefusals.allRefusals, List.countP_cons, Nat.add_assoc, Nat.add_comm (ite ..)]

/-! ### Runs -/

/-- If no request to reinstate a poll is lost, the counters of a run agree with the state and with
    the replies, wherever else requests were lost: as many polls were opened as are pending or have
    ended, as many ended with an outcome as have it, as many were not stored as effects tell of, and
    as many refusals were counted as admissions were refused. The next call counts a refusal just if
    it refuses one, under the name of the appendix to blame. -/
theorem run_counters {ledger : Ledger} {faults : Faults} {calls : List (Config × Call)}
    {replies : List Reply} {n : Node} (hkept : ∀ k, faults.store k .reinstate = none)
    (hrun : (ofLedger ledger).run faults calls = (replies, n)) :
    n.journal.pollsOpened = n.polls.pendingCount + n.polls.outcomes.size ∧
    (∀ outcome, n.journal.pollsResolved outcome = n.polls.outcomes.values.count outcome) ∧
    n.journal.pollsNotStored = (replies.flatMap Reply.listed).countP Effect.isPollNotStored ∧
    (Kind.all.map n.journal.refusals).sum = replies.countP Reply.isNotAdmitted ∧
    ∀ config call reply n', n.perform faults config call = (reply, n') →
      n.CountsRefusals faults config call reply n' := by
  obtain ⟨ms, hmoves, -⟩ := run_moves PollStore.sound_empty hrun
  have hsound := hmoves.sound PollStore.sound_empty
  obtain ⟨hopened, hresolved⟩ :=
    hmoves.counted hkept PollStore.sound_empty (counted_ofLedger ledger)
  obtain ⟨hnotStored, hrefusals⟩ := run_adds PollStore.sound_empty hrun
  refine ⟨hopened, hresolved, ?_, ?_, ?_⟩
  · exact hnotStored.trans (Nat.zero_add _)
  · exact hrefusals.trans (Nat.zero_add _)
  · intro config call reply n' hperform
    exact (perform_adds hsound hperform).2

/-- The first request to save a poll is lost. -/
def lostSave : Faults :=
  ⟨fun _ _ => none, fun k request => if k = 0 ∧ request = .save then some "timeout" else none⟩

/-- A payment is stored the second time only, cannot be approved and is given back. Another one
    waits. In between an appendix is refused. -/
def countedCalls : List (Config × Call) :=
  [phasedPayment 7 1 (some 2) 10, phasedPayment 7 1 (some 2) 10, phasedPayment 8 1 none 3,
    .validate ⟨9, 1, .ordinaryPayment, 1, some 2, 4, 100⟩ AppendixSet.longMessageAndPoll,
    .commit 7, .rollback 7].map (.standard, ·)

theorem run_counters_givenBack :
    (∀ k, lostSave.store k .reinstate = none) ∧
      let n := ((ofLedger fullLedger).run lostSave countedCalls).2
      n.journal.pollsOpened = 2 ∧ n.journal.pollsResolved .approved = 0 ∧
        n.journal.pollsResolved .rejected = 1 ∧ n.journal.pollsNotStored = 1 ∧
        (Kind.all.map n.journal.refusals).sum = 1 := by
  have hkept : ∀ k, lostSave.store k .reinstate = none := by simp [lostSave]
  have hrun := (Prod.eta ((ofLedger fullLedger).run lostSave countedCalls)).symm
  obtain ⟨hopened, hresolved, hnotStored, hrefusals, -⟩ := run_counters hkept hrun
  exact ⟨hkept, hopened.trans (by decide +kernel), (hresolved _).trans (by decide +kernel),
    (hresolved _).trans (by decide +kernel), hnotStored.trans (by decide +kernel),
    hrefusals.trans (by decide +kernel)⟩

end Node

end LedgerAppendix
