import LedgerAppendix.Node.Call
import LedgerAppendix.Proofs.Basic
import LedgerAppendix.Proofs.Ledger.KeyBinding
import LedgerAppendix.Proofs.Poll.Store

/-!
# What a request can come to

A request is lost, or refused, or answered. In the first two cases nothing but the count of requests
changes. A request that only looks something up changes nothing else in the third case either, so
the node after it is known before the answer is.
-/

namespace LedgerAppendix

namespace Node

variable {α : Type} {n n' : Node} {faults : Faults}

/-! ### The account ledger -/

theorem askLedger_cases {request : LedgerRequest}
    {answer : Ledger → Except LedgerError (α × Ledger)} {r : Except LedgerError α}
    (h : n.askLedger faults request answer = (r, n')) :
    (∃ reason, faults.ledger n.requests request = some reason ∧ r = .error (.backend reason) ∧
        n' = n.tick) ∨
      faults.ledger n.requests request = none ∧
        ((∃ e, answer n.ledger = .error e ∧ r = .error e ∧ n' = n.tick) ∨
          ∃ a ledger, answer n.ledger = .ok (a, ledger) ∧ r = .ok a ∧
            n' = { n.tick with ledger }) := by
  unfold askLedger at h
  split at h
  · next reason hlost =>
    cases h
    exact .inl ⟨reason, hlost, rfl, rfl⟩
  · next hkept =>
    refine .inr ⟨hkept, ?_⟩
    split at h
    · next e hanswer =>
      cases h
      exact .inl ⟨e, hanswer, rfl, rfl⟩
    · next a ledger hanswer =>
      cases h
      exact .inr ⟨a, ledger, hanswer, rfl, rfl⟩

/-- Looking something up in the ledger changes nothing but the count of requests, and what is found
    is what the ledger has. -/
theorem of_askLedger {request : LedgerRequest} (look : Ledger → α) {r : Except LedgerError α}
    (h : n.askLedger faults request (fun l => .ok (look l, l)) = (r, n')) :
    n' = n.tick ∧ ∀ a, r = .ok a → look n.ledger = a := by
  rcases askLedger_cases h with
    ⟨reason, -, rfl, hn⟩ | ⟨-, ⟨e, hanswer, -⟩ | ⟨a, ledger, hanswer, rfl, hn⟩⟩
  · exact ⟨hn, nofun⟩
  · cases hanswer
  · cases hanswer
    exact ⟨hn, fun _ ha => Except.ok.inj ha⟩

theorem bindKey_cases {account : AccountId} {key : PublicKey} {height : UInt32}
    {r : Except LedgerError Bool} (h : n.bindKey faults account key height = (r, n')) :
    (∃ reason, faults.ledger n.requests .bindKey = some reason ∧ r = .error (.backend reason) ∧
        n' = n.tick) ∨
      faults.ledger n.requests .bindKey = none ∧
        r = .ok (n.ledger.bindKey account key height).1 ∧
        n' = { n.tick with ledger := (n.ledger.bindKey account key height).2 } := by
  rcases askLedger_cases h with hlost | ⟨hkept, ⟨e, hanswer, -⟩ | ⟨bound, ledger, hanswer, hr, hn⟩⟩
  · exact .inl hlost
  · cases hanswer
  · have hbound : n.ledger.bindKey account key height = (bound, ledger) := Except.ok.inj hanswer
    rw [hbound]
    exact .inr ⟨hkept, hr, hn⟩

theorem credit_cases {account : AccountId} {amount : UInt64} {r : Except LedgerError Unit}
    (h : n.credit faults account amount = (r, n')) :
    (∃ reason, faults.ledger n.requests .credit = some reason ∧ r = .error (.backend reason) ∧
        n' = n.tick) ∨
      faults.ledger n.requests .credit = none ∧
        ((∃ e, n.ledger.credit account amount = .error e ∧ r = .error e ∧ n' = n.tick) ∨
          ∃ ledger, n.ledger.credit account amount = .ok ledger ∧ r = .ok () ∧
            n' = { n.tick with ledger }) := by
  rcases askLedger_cases h with
    hlost | ⟨hkept, ⟨e, hanswer, hr, hn⟩ | ⟨_, ledger, hanswer, hr, hn⟩⟩
  · exact .inl hlost
  · exact .inr ⟨hkept, .inl ⟨e, of_map_eq_error hanswer, hr, hn⟩⟩
  · obtain ⟨credited, hcredit, hpair⟩ := of_map_eq_ok hanswer
    cases hpair
    exact .inr ⟨hkept, .inr ⟨ledger, hcredit, hr, hn⟩⟩

/-! ### The poll store -/

theorem askStore_cases {request : StoreRequest}
    {answer : PollStore → Except StorageError (α × PollStore)} {r : Except StorageError α}
    (h : n.askStore faults request answer = (r, n')) :
    (∃ reason, faults.store n.requests request = some reason ∧
        r = .error (.unavailable (.backend reason)) ∧ n' = n.tick) ∨
      faults.store n.requests request = none ∧
        ((∃ e, answer n.polls = .error e ∧ r = .error e ∧ n' = n.tick) ∨
          ∃ a polls, answer n.polls = .ok (a, polls) ∧ r = .ok a ∧
            n' = { n.tick with polls }) := by
  unfold askStore at h
  split at h
  · next reason hlost =>
    cases h
    exact .inl ⟨reason, hlost, rfl, rfl⟩
  · next hkept =>
    refine .inr ⟨hkept, ?_⟩
    split at h
    · next e hanswer =>
      cases h
      exact .inl ⟨e, hanswer, rfl, rfl⟩
    · next a polls hanswer =>
      cases h
      exact .inr ⟨a, polls, hanswer, rfl, rfl⟩

theorem askStore_of_lost {request : StoreRequest}
    {answer : PollStore → Except StorageError (α × PollStore)} {reason : String}
    (hlost : faults.store n.requests request = some reason) :
    n.askStore faults request answer = (.error (.unavailable (.backend reason)), n.tick) := by
  unfold askStore
  rw [hlost]

/-- A request that is not lost gets the store's own answer. -/
theorem askStore_of_answers {request : StoreRequest}
    {answer : PollStore → Except StorageError (α × PollStore)} {a : α} {polls : PollStore}
    (hkept : faults.store n.requests request = none)
    (hanswer : answer n.polls = .ok (a, polls)) :
    n.askStore faults request answer = (.ok a, { n.tick with polls }) := by
  unfold askStore
  rw [hkept, hanswer]

/-- Looking something up in the store changes nothing but the count of requests, and what is found
    is what the store has. -/
theorem of_askStore {request : StoreRequest} (look : PollStore → α) {r : Except StorageError α}
    (h : n.askStore faults request (fun s => (s.whenAvailable (.ok (look s))).map (·, s)) =
      (r, n')) :
    n' = n.tick ∧ ∀ a, r = .ok a → look n.polls = a := by
  rcases askStore_cases h with
    ⟨reason, -, rfl, hn⟩ | ⟨-, ⟨e, -, rfl, hn⟩ | ⟨a, polls, hanswer, rfl, hn⟩⟩
  · exact ⟨hn, nofun⟩
  · exact ⟨hn, nofun⟩
  · obtain ⟨found, hlook, hpair⟩ := of_map_eq_ok hanswer
    cases hpair
    have hfound := Except.ok.inj (PollStore.of_whenAvailable_eq_ok hlook).2
    exact ⟨hn, fun a' ha => hfound.trans (Except.ok.inj ha)⟩

theorem of_getPoll {id : TransactionId} {r : Except StorageError (Option Poll)}
    (h : n.getPoll faults id = (r, n')) :
    n' = n.tick ∧ ∀ found, r = .ok found → n.polls.pending.get? id = found :=
  of_askStore (·.pending.get? id) h

theorem of_pollOutcome {id : TransactionId} {r : Except StorageError (Option PollOutcome)}
    (h : n.pollOutcome faults id = (r, n')) :
    n' = n.tick ∧ ∀ found, r = .ok found → n.polls.outcomes.get? id = found :=
  of_askStore (·.outcomes.get? id) h

theorem of_pendingPolls {r : Except StorageError (List Poll)}
    (h : n.pendingPolls faults = (r, n')) :
    n' = n.tick ∧ ∀ found, r = .ok found → n.polls.pending.values = found :=
  of_askStore (·.pending.values) h

theorem of_hasPoll {id : TransactionId} {r : Except StorageError Bool}
    (h : n.hasPoll faults id = (r, n')) :
    n' = n.tick ∧ ∀ found, r = .ok found → (n.polls.pending.get? id).isSome = found := by
  unfold hasPoll at h
  split at h
  · next found m hget =>
    cases h
    obtain ⟨rfl, hfound⟩ := of_getPoll hget
    refine ⟨rfl, fun a ha => ?_⟩
    rw [hfound found rfl]
    exact Except.ok.inj ha
  · next e m hget =>
    cases h
    exact ⟨(of_getPoll hget).1, nofun⟩

theorem of_missingPoll {id : TransactionId} {e : PollError}
    (h : n.missingPoll faults id = (e, n')) : n' = n.tick := by
  unfold missingPoll at h
  split at h <;>
    next hanswer =>
      cases h
      exact (of_pollOutcome hanswer).1

/-! ### Requests that are not lost -/

/-- A look-up that is not lost finds what a store has that answers. -/
theorem askStore_of_kept (hs : n.polls.Sound) {request : StoreRequest} (look : PollStore → α)
    (hkept : faults.store n.requests request = none) :
    n.askStore faults request (fun s => (s.whenAvailable (.ok (look s))).map (·, s)) =
      (.ok (look n.polls), n.tick) := by
  apply askStore_of_answers hkept
  rw [hs.whenAvailable]
  rfl

theorem getPoll_of_kept (hs : n.polls.Sound) (id : TransactionId)
    (hkept : faults.store n.requests .get = none) :
    n.getPoll faults id = (.ok (n.polls.pending.get? id), n.tick) :=
  askStore_of_kept hs (·.pending.get? id) hkept

theorem pollOutcome_of_kept (hs : n.polls.Sound) (id : TransactionId)
    (hkept : faults.store n.requests .outcome = none) :
    n.pollOutcome faults id = (.ok (n.polls.outcomes.get? id), n.tick) :=
  askStore_of_kept hs (·.outcomes.get? id) hkept

theorem hasPoll_of_kept (hs : n.polls.Sound) (id : TransactionId)
    (hkept : faults.store n.requests .get = none) :
    n.hasPoll faults id = (.ok (n.polls.pending.get? id).isSome, n.tick) := by
  rw [hasPoll, getPoll_of_kept hs id hkept]

theorem pendingPolls_of_kept (hs : n.polls.Sound)
    (hkept : faults.store n.requests .list = none) :
    n.pendingPolls faults = (.ok n.polls.pending.values, n.tick) :=
  askStore_of_kept hs (·.pending.values) hkept

theorem missingPoll_of_kept (hs : n.polls.Sound) (id : TransactionId)
    (hkept : faults.store n.requests .outcome = none) :
    n.missingPoll faults id =
      ((n.polls.outcomes.get? id).elim (.notFound id) (.alreadyResolved id), n.tick) := by
  rw [missingPoll, pollOutcome_of_kept hs id hkept]
  cases n.polls.outcomes.get? id with
  | none => rfl
  | some outcome => rfl

/-! ### Polls that are saved -/

/-- The node can open a poll under an identifier: the request to save it is not lost, and the store
    does not know it yet. -/
structure Opens (n : Node) (faults : Faults) (id : TransactionId) : Prop where
  kept : faults.store n.requests .save = none
  available : n.polls.isAvailable
  pending : n.polls.pending.get? id = none
  ended : n.polls.outcomes.get? id = none

theorem savePoll_cases {p : Poll} {r : Except StorageError Unit}
    (h : n.savePoll faults p = (r, n')) :
    (¬n.Opens faults p.id ∧ ∃ e, r = .error e ∧ n' = n.tick) ∨
      n.Opens faults p.id ∧ r = .ok () ∧ n' = { n.tick with polls := n.polls.put p } := by
  rcases askStore_cases h with
    ⟨reason, hlost, rfl, rfl⟩ | ⟨hkept, ⟨e, hanswer, rfl, rfl⟩ | ⟨_, polls, hanswer, rfl, rfl⟩⟩
  · -- the request is lost
    refine .inl ⟨fun hopens => ?_, _, rfl, rfl⟩
    rw [hopens.kept] at hlost
    cases hlost
  · -- the store does not take the poll
    refine .inl ⟨fun hopens => ?_, e, rfl, rfl⟩
    have hsave := PollStore.save_eq_ok_iff.2
      ⟨hopens.available, hopens.pending, hopens.ended, rfl⟩
    rw [of_map_eq_error hanswer] at hsave
    cases hsave
  · -- the store takes it
    obtain ⟨saved, hsave, hpair⟩ := of_map_eq_ok hanswer
    cases hpair
    obtain ⟨havailable, hpending, hended, rfl⟩ := PollStore.save_eq_ok_iff.1 hsave
    exact .inr ⟨⟨hkept, havailable, hpending, hended⟩, rfl, rfl⟩

theorem updatePoll_cases {p : Poll} {r : Except StorageError Unit}
    (h : n.updatePoll faults p = (r, n')) :
    (∃ e, r = .error e ∧ n' = n.tick) ∨
      r = .ok () ∧ n' = { n.tick with polls := n.polls.put p } := by
  rcases askStore_cases h with
    ⟨reason, -, rfl, hn⟩ | ⟨-, ⟨e, -, rfl, hn⟩ | ⟨_, polls, hanswer, rfl, hn⟩⟩
  · exact .inl ⟨_, rfl, hn⟩
  · exact .inl ⟨e, rfl, hn⟩
  · obtain ⟨updated, hupdate, hpair⟩ := of_map_eq_ok hanswer
    cases hpair
    exact .inr ⟨rfl, PollStore.of_update_eq_ok hupdate ▸ hn⟩

end Node

/-!
## What the effect of an appendix can come to

An announcement makes one request, if there is a recipient and what is announced is a key, and a
phasing makes one; messages make none. All that an appendix does to a node follows from what becomes
of its request, so it is said here once, with the request that is made and the note in the journal.
-/

/-- The account and the key that an announcement is to bind, if the transaction has a recipient and
    what is announced is a key. -/
def Announcement.binding? (a : Announcement) (tx : Transaction) :
    Option (AccountId × PublicKey) :=
  match tx.recipient, a.key? with
  | some recipient, some key => some (recipient, key)
  | _, _ => none

theorem Announcement.binding?_eq_some_iff {a : Announcement} {tx : Transaction}
    {recipient : AccountId} {key : PublicKey} :
    a.binding? tx = some (recipient, key) ↔ tx.recipient = some recipient ∧ a.key? = some key := by
  unfold binding?
  cases tx.recipient <;> cases a.key? <;> simp

namespace Node

variable {faults : Faults} {n n' : Node} {tx : Transaction} {effect : Effect}

/-- What can come of an announcement: there is nothing to bind, and no request is made; or the
    request is lost; or the key is bound; or the account has another one. -/
inductive Announces (n : Node) (faults : Faults) (tx : Transaction) (a : Announcement) :
    Effect → Node → Prop
  | idle (hnone : a.binding? tx = none) : Announces n faults tx a .none n
  | lost {recipient : AccountId} {key : PublicKey} {reason : String}
    (hbinding : a.binding? tx = some (recipient, key))
    (hlost : faults.ledger n.requests .bindKey = some reason) :
    Announces n faults tx a .ledgerFault
      (n.tick.record (.keyBindingFailed recipient tx.id (.backend reason)))
  | bound {recipient : AccountId} {key : PublicKey}
    (hbinding : a.binding? tx = some (recipient, key))
    (hkept : faults.ledger n.requests .bindKey = none)
    (hbound : (n.ledger.bindKey recipient key tx.height).1 = true) :
    Announces n faults tx a (.keyBound recipient)
      ({ n.tick with ledger := (n.ledger.bindKey recipient key tx.height).2 }.record
        (.keyBound recipient tx.height))
  | refused {recipient : AccountId} {key : PublicKey}
    (hbinding : a.binding? tx = some (recipient, key))
    (hkept : faults.ledger n.requests .bindKey = none)
    (hrefused : (n.ledger.bindKey recipient key tx.height).1 = false) :
    Announces n faults tx a .none (n.tick.record (.keyIgnored recipient tx.id))

theorem applyAnnouncement_cases {a : Announcement}
    (h : n.applyAnnouncement faults tx a = (effect, n')) : n.Announces faults tx a effect n' := by
  unfold applyAnnouncement at h
  split at h
  · next recipient key hrecipient hkey =>
    have hbinding := Announcement.binding?_eq_some_iff.2 ⟨hrecipient, hkey⟩
    split at h
    · next m hbind =>
      -- the key is bound
      cases h
      rcases bindKey_cases hbind with ⟨reason, -, hr, -⟩ | ⟨hkept, hr, rfl⟩
      · cases hr
      · exact .bound hbinding hkept (Except.ok.inj hr).symm
    · next m hbind =>
      -- the account has another key
      cases h
      rcases bindKey_cases hbind with ⟨reason, -, hr, -⟩ | ⟨hkept, hr, rfl⟩
      · cases hr
      · have hrefused := (Except.ok.inj hr).symm
        rw [Ledger.bindKey_of_refused hrefused]
        exact .refused hbinding hkept hrefused
    · next e m hbind =>
      -- the request is lost
      cases h
      rcases bindKey_cases hbind with ⟨reason, hlost, hr, rfl⟩ | ⟨-, hr, -⟩
      · cases hr
        exact .lost hbinding hlost
      · cases hr
  · next hnone =>
    -- no recipient, or no key
    cases h
    refine .idle (Option.eq_none_iff_forall_ne_some.2 fun (recipient, key) hsome => ?_)
    obtain ⟨hrecipient, hkey⟩ := Announcement.binding?_eq_some_iff.1 hsome
    exact hnone recipient key hrecipient hkey

theorem Announces.polls {a : Announcement} (h : n.Announces faults tx a effect n') :
    n'.polls = n.polls := by
  cases h <;> rfl

/-- A phasing opens its poll just if the node can. -/
theorem applyPhasing_cases {p : Phasing} (h : n.applyPhasing faults tx p = (effect, n')) :
    (n.Opens faults tx.id ∧ effect = .pollOpened tx.id ∧
      n' = { n.tick with polls := n.polls.put (Poll.ofTransaction tx p) }.record
        (.pollOpened tx.id p.maxHeight)) ∨
    ¬n.Opens faults tx.id ∧ effect = .pollNotStored tx.id ∧
      ∃ e, n' = n.tick.record (.pollNotStored tx.id e) := by
  unfold applyPhasing at h
  split at h
  · next m hsave =>
    -- the poll is saved
    cases h
    rcases savePoll_cases hsave with ⟨-, e, hr, -⟩ | ⟨hopens, -, rfl⟩
    · cases hr
    · exact .inl ⟨hopens, rfl, rfl⟩
  · next e m hsave =>
    -- the poll is not saved
    cases h
    rcases savePoll_cases hsave with ⟨hopens, e, -, rfl⟩ | ⟨-, hr, -⟩
    · exact .inr ⟨hopens, rfl, _, rfl⟩
    · cases hr

end Node

end LedgerAppendix
