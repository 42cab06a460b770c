import LedgerAppendix.Proofs.Node.Finality
import LedgerAppendix.Proofs.Node.KeyBinding
import LedgerAppendix.Proofs.Node.Undisturbed

/-!
# Applying a transaction again

Where no request is lost, a transaction that has been applied once can be applied again at any later
time, and nothing comes of it. What an appendix leaves behind when it takes effect is `Settled`: the
recipient has a key, at no greater height if it is the one announced, and the poll is known. Nothing
that a node does undoes this, and an appendix that is settled has no effect any more.
-/

namespace LedgerAppendix.Node

variable {faults : Faults} {n n' : Node} {tx : Transaction}

/-- What makes it useless to let an appendix take effect once more. -/
def Settled (n : Node) (tx : Transaction) : Appendix → Prop
  | .announcement a => ∀ recipient key, tx.recipient = some recipient → a.key? = some key →
      ∃ b, (n.ledger.account recipient).binding = some b ∧ (b.key = key → b.height ≤ tx.height)
  | .phasing _ => n.polls.statusOf tx.id ≠ .error (.notFound tx.id)
  | .message _ | .encryptedMessage _ | .encryptToSelf _ => True

/-! ### Settled for good -/

/-- A poll that is known stays known. -/
theorem Moves.known {ms : List Move} (h : n.Moves faults ms n') {id : TransactionId}
    (hknown : n.polls.statusOf id ≠ .error (.notFound id)) :
    n'.polls.statusOf id ≠ .error (.notFound id) := by
  induction h with
  | nil => exact hknown
  | cons hstep _ ih =>
    apply ih
    rcases hstep.statusOf id with hsame | ⟨-, -, hafter⟩ | ⟨outcome, -, -, hafter⟩
    · rw [hsame]
      exact hknown
    · rw [hafter]
      exact nofun
    · rw [hafter]
      exact nofun

theorem Settled.later {a : Appendix} (h : n.Settled tx a) {hs : AccountId → List UInt32}
    (hbinds : n.ledger.Binds n'.ledger hs) {ms : List Move} (hmoves : n.Moves faults ms n') :
    n'.Settled tx a := by
  cases a with
  | announcement a =>
    -- the key stays and the height only goes down, so the bound on it is kept
    intro recipient key hrecipient hkey
    obtain ⟨b, hb, hheight⟩ := h recipient key hrecipient hkey
    obtain ⟨b', hb', hkey', hlower⟩ := hbinds.binding hb
    exact ⟨b', hb', fun hk => UInt32.le_trans hlower (hheight (hkey' ▸ hk))⟩
  | phasing p => exact hmoves.known h
  | message | encryptedMessage | encryptToSelf => trivial

/-! ### Settled by taking effect -/

theorem ledger_applyAnnouncement_none (n : Node) {a : Announcement} {recipient : AccountId}
    {key : PublicKey} (hrecipient : tx.recipient = some recipient) (hkey : a.key? = some key) :
    (n.applyAnnouncement .none tx a).2.ledger = (n.ledger.bindKey recipient key tx.height).2 := by
  have hbinding := Announcement.binding?_eq_some_iff.2 ⟨hrecipient, hkey⟩
  generalize happly : n.applyAnnouncement .none tx a = answer
  obtain ⟨effect, n'⟩ := answer
  cases applyAnnouncement_cases happly with
  | idle hnone =>
    rw [hbinding] at hnone
    cases hnone
  | lost _ hlost => cases hlost
  | bound hsome =>
    rw [hbinding] at hsome
    cases hsome
    rfl
  | refused hsome _ hrefused =>
    rw [hbinding] at hsome
    cases hsome
    rw [Ledger.bindKey_of_refused hrefused]
    rfl

theorem applyAppendix_settles (hs : n.polls.Sound) (a : Appendix) :
    (n.applyAppendix .none tx a).2.Settled tx a := by
  cases a with
  | announcement a =>
    intro recipient key hrecipient hkey
    have hledger := ledger_applyAnnouncement_none n hrecipient hkey
    exact hledger ▸ n.ledger.binding_bindKey recipient key tx.height
  | phasing p =>
    show (n.applyPhasing .none tx p).2.polls.statusOf tx.id ≠ _
    by_cases hnew : n.polls.pending.get? tx.id = none ∧ n.polls.outcomes.get? tx.id = none
    · rw [(applyPhasing_of_new hs hnew.1 hnew.2).2, PollStore.statusOf_put]
      exact (if_pos rfl).symm ▸ nofun
    · rw [(applyPhasing_of_known hnew).2]
      exact fun h => hnew (PollStore.statusOf_eq_notFound_iff.1 h)
  | message | encryptedMessage | encryptToSelf => trivial

/-- All that is applied is settled afterwards. -/
theorem applyEach_settles (hs : n.polls.Sound) {as : List Appendix} {es : List Effect}
    (h : n.applyEach .none tx as = (es, n')) : ∀ a ∈ as, n'.Settled tx a := by
  induction as generalizing n es with
  | nil => exact List.forall_mem_nil _
  | cons a as ih =>
    obtain ⟨effect, n₁, rest, happly, hrest, rfl⟩ := of_applyEach_cons h
    obtain ⟨m, hstep, -⟩ := applyAppendix_step happly
    obtain ⟨ms, hmoves, -⟩ := applyEach_moves hrest
    have hfirst : (n.applyAppendix .none tx a).2.Settled tx a := applyAppendix_settles hs a
    rw [happly] at hfirst
    exact List.forall_mem_cons.2
      ⟨hfirst.later (applyEach_binds hrest) hmoves, ih (hstep.sound hs) hrest⟩

/-- What is applied in a run is settled at the end of it. -/
theorem run_settles (hs : n.polls.Sound) {calls : List (Config × Call)} {replies : List Reply}
    (h : n.run .none calls = (replies, n')) {config : Config} {s : AppendixSet}
    (hmem : (config, .apply tx s) ∈ calls) : ∀ a ∈ s.toList, n'.Settled tx a := by
  induction calls generalizing n replies with
  | nil => cases hmem
  | cons call calls ih =>
    obtain ⟨reply, n₁, rest, hperform, hrest, rfl⟩ := of_run_cons h
    obtain ⟨ms, hmoves, -⟩ := perform_moves hs hperform
    have hs₁ := hmoves.sound hs
    rcases List.mem_cons.1 hmem with rfl | hmem
    · obtain ⟨ms', hmoves', -⟩ := run_moves hs₁ hrest
      intro a ha
      have happly : n.applyEach .none tx s.toList = ((n.applyEach .none tx s.toList).1, n₁) :=
        congrArg (Prod.mk _) (congrArg Prod.snd hperform)
      exact (applyEach_settles hs happly a ha).later (run_binds hrest) hmoves'
    · exact ih hs₁ hrest hmem

/-! ### No effect any more -/

theorem applyAppendix_of_settled {a : Appendix} (h : n.Settled tx a) :
    (n.applyAppendix .none tx a).2.ledger = n.ledger ∧
      (n.applyAppendix .none tx a).2.polls = n.polls ∧
      ∀ p, a = .phasing p → (n.applyAppendix .none tx a).1 = .pollNotStored tx.id := by
  cases a with
  | announcement a =>
    refine ⟨?_, polls_applyAnnouncement .., nofun⟩
    show (n.applyAnnouncement .none tx a).2.ledger = n.ledger
    generalize happly : n.applyAnnouncement .none tx a = answer
    obtain ⟨effect, n'⟩ := answer
    cases applyAnnouncement_cases happly with
    | idle => rfl
    | lost _ hlost => cases hlost
    | bound hbinding =>
      obtain ⟨hrecipient, hkey⟩ := Announcement.binding?_eq_some_iff.1 hbinding
      obtain ⟨b, hb, hheight⟩ := h _ _ hrecipient hkey
      exact Ledger.bindKey_again hb hheight
    | refused => rfl
  | phasing p =>
    have hknown : ¬(n.polls.pending.get? tx.id = none ∧ n.polls.outcomes.get? tx.id = none) :=
      fun hnew => h (PollStore.statusOf_eq_notFound_iff.2 hnew)
    obtain ⟨heffect, hpolls⟩ := applyPhasing_of_known (p := p) hknown
    exact ⟨(of_applyPhasing rfl).1, hpolls, fun _ _ => heffect⟩
  | message | encryptedMessage | encryptToSelf => exact ⟨rfl, rfl, nofun⟩

theorem Settled.congr {a : Appendix} (h : n.Settled tx a) (hledger : n'.ledger = n.ledger)
    (hpolls : n'.polls = n.polls) : n'.Settled tx a := by
  cases a with
  | announcement a =>
    intro recipient key hrecipient hkey
    rw [hledger]
    exact h recipient key hrecipient hkey
  | phasing p =>
    show n'.polls.statusOf tx.id ≠ _
    rw [hpolls]
    exact h
  | message | encryptedMessage | encryptToSelf => trivial

theorem applyEach_of_settled {as : List Appendix} (h : ∀ a ∈ as, n.Settled tx a)
    {es : List Effect} (hreplay : n.applyEach .none tx as = (es, n')) :
    n'.ledger = n.ledger ∧ n'.polls = n.polls ∧
      ∀ p, .phasing p ∈ as → (.phasing p, .pollNotStored tx.id) ∈ as.zip es := by
  induction as generalizing n es with
  | nil =>
    cases hreplay
    exact ⟨rfl, rfl, fun p hp => nomatch hp⟩
  | cons a as ih =>
    obtain ⟨effect, n₁, rest, happly, hrest, rfl⟩ := of_applyEach_cons hreplay
    obtain ⟨hfirst, hothers⟩ := List.forall_mem_cons.1 h
    obtain ⟨hledger, hpolls, heffect⟩ := applyAppendix_of_settled hfirst
    rw [happly] at hledger hpolls heffect
    obtain ⟨hledger', hpolls', heffects⟩ :=
      ih (fun b hb => (hothers b hb).congr hledger hpolls) hrest
    refine ⟨hledger'.trans hledger, hpolls'.trans hpolls, fun p hp => ?_⟩
    rcases List.mem_cons.1 hp with rfl | hp
    · have hreported : effect = .pollNotStored tx.id := heffect p rfl
      rw [List.zip_cons_cons, hreported]
      exact List.mem_cons_self
    · exact List.mem_cons_of_mem _ (heffects p hp)

/-! ### Runs -/

/-- Where no request is lost, a transaction that was applied in a run can be applied again after it,
    under any configuration. Neither the ledger nor the polls change, whatever else the run was made
    of, and its phasing, if it has one, is reported as not stored. -/
theorem run_replay {ledger : Ledger} {calls : List (Config × Call)} {replies : List Reply}
    (hrun : (ofLedger ledger).run .none calls = (replies, n)) {config : Config} {s : AppendixSet}
    (hmem : (config, .apply tx s) ∈ calls) (config' : Config) {reply : Reply}
    (hreplay : n.perform .none config' (.apply tx s) = (reply, n')) :
    n'.ledger = n.ledger ∧ n'.polls = n.polls ∧
      ∃ es, reply = .effects es ∧
        ∀ p, s.phasing = some p → (.phasing p, .pollNotStored tx.id) ∈ s.toList.zip es := by
  have hsettled := run_settles PollStore.sound_empty hrun hmem
  cases hreplay
  obtain ⟨hledger, hpolls, heffects⟩ := applyEach_of_settled hsettled rfl
  exact ⟨hledger, hpolls, _, rfl,
    fun p hp => heffects p (AppendixSet.mem_toList_phasing.2 hp)⟩

/-- A key is announced beside a poll, and again at a lower height, before the poll is approved. -/
def announcedAndApproved : List (Config × Call) :=
  [(.standard, .apply (paymentAt 100) (.announcedWith .account)),
    (.standard, .apply (paymentAt 50) announced),
    (.standard, .vote 7 3 150),
    (.standard, .commit 7)]

/-- To apply the first transaction again then neither opens its poll nor raises the height. -/
theorem run_replay_announcedAndApproved :
    let n := ((ofLedger .empty).run .none announcedAndApproved).2
    n.polls.outcomes.get? 7 = some .approved ∧
      n.ledger.keyHeight? (accountId AppendixSet.announcedKey.bytes) = some 50 ∧
      (n.perform .none .standard
        (.apply (paymentAt 100) (.announcedWith .account))).2.ledger = n.ledger ∧
      (n.perform .none .standard
        (.apply (paymentAt 100) (.announcedWith .account))).2.polls = n.polls := by
  intro n
  have hended : n.polls.outcomes.get? 7 = some .approved := by decide +kernel
  have hheight : n.ledger.keyHeight? (accountId AppendixSet.announcedKey.bytes) = some 50 := by
    decide +kernel
  obtain ⟨hledger, hpolls, -⟩ := run_replay
    (Prod.eta ((ofLedger .empty).run .none announcedAndApproved)).symm List.mem_cons_self .standard
    (Prod.eta (n.perform .none .standard _)).symm
  exact ⟨hended, hheight, hledger, hpolls⟩

end LedgerAppendix.Node
