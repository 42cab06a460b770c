import LedgerAppendix.Proofs.Node.KeyBinding
import LedgerAppendix.Proofs.Node.Undisturbed

/-!
# What applying a transaction does, and what it leaves alone

Every appendix takes effect, whatever became of the ones before it, and each effect can be foretold
from the node before the first of them (`effectAt`): no two appendices of a set touch the same
thing, so all that one of them has to know of those before it is how many requests they make.

Beyond the key of the recipient and a new poll nothing changes (`LeavesAlone`).
-/

namespace LedgerAppendix

/-- The number of requests that an appendix makes when it takes effect. -/
def Appendix.requests (tx : Transaction) : Appendix → Nat
  | .announcement a => if (a.binding? tx).isSome then 1 else 0
  | .phasing _ => 1
  | .message _ | .encryptedMessage _ | .encryptToSelf _ => 0

/-- The number of requests that some appendices make for kinds before one. -/
def requestsBefore (tx : Transaction) (as : List Appendix) (k : Kind) : Nat :=
  ((as.filter fun a => a.kind.rank < k.rank).map (Appendix.requests tx)).sum

namespace Node

variable {faults : Faults} {n n' : Node} {tx : Transaction} {s : AppendixSet} {effect : Effect}

/-! ### Effects -/

/-- The effect of an appendix whose request, if it makes one, has a number. An announcement binds
    its key unless the request is lost or the account has another key. A phasing opens its poll
    unless the request is lost or the identifier is known. -/
def effectAt (n : Node) (faults : Faults) (tx : Transaction) (request : Nat) : Appendix → Effect
  | .announcement a =>
    match a.binding? tx with
    | none => .none
    | some (recipient, key) =>
      if faults.ledger request .bindKey ≠ none then .ledgerFault
      else if ∀ k ∈ n.ledger.publicKey? recipient, k = key then .keyBound recipient
      else .none
  | .phasing _ =>
    if faults.store request .save = none ∧ n.polls.pending.get? tx.id = none ∧
      n.polls.outcomes.get? tx.id = none then .pollOpened tx.id
    else .pollNotStored tx.id
  | .message _ | .encryptedMessage _ | .encryptToSelf _ => .none

theorem applyAppendix_effect (hs : n.polls.Sound) {a : Appendix}
    (h : n.applyAppendix faults tx a = (effect, n')) :
    effect = n.effectAt faults tx n.requests a ∧ n'.requests = n.requests + a.requests tx := by
  cases a with
  | message | encryptedMessage | encryptToSelf =>
    cases h
    exact ⟨rfl, rfl⟩
  | announcement a =>
    cases applyAnnouncement_cases h with
    | idle hnone => simp [effectAt, Appendix.requests, hnone]
    | lost hbinding hlost => simp [effectAt, Appendix.requests, hbinding, hlost, record, tick]
    | @bound recipient key hbinding hkept hbound =>
      have hkeys : ∀ k ∈ n.ledger.publicKey? recipient, k = key :=
        Ledger.bindKey_eq_true_iff.1 hbound
      simp only [effectAt, Appendix.requests, hbinding, hkept, ne_eq, not_true_eq_false, if_false,
        if_pos hkeys]
      exact ⟨trivial, rfl⟩
    | @refused recipient key hbinding hkept hrefused =>
      have hkeys : ¬∀ k ∈ n.ledger.publicKey? recipient, k = key := by
        intro hkeys
        rw [Ledger.bindKey_eq_true_iff.2 hkeys] at hrefused
        cases hrefused
      simp only [effectAt, Appendix.requests, hbinding, hkept, ne_eq, not_true_eq_false, if_false,
        if_neg hkeys]
      exact ⟨trivial, rfl⟩
  | phasing p =>
    rcases applyPhasing_cases h with ⟨hopens, rfl, rfl⟩ | ⟨hopens, rfl, e, rfl⟩
    · -- the poll is opened
      exact ⟨(if_pos ⟨hopens.kept, hopens.pending, hopens.ended⟩).symm, rfl⟩
    · -- the poll is not stored
      refine ⟨(if_neg fun hnew => hopens ?_).symm, rfl⟩
      exact ⟨hnew.1, hs.isAvailable, hnew.2.1, hnew.2.2⟩

/-- An appendix has no influence on the effects of those of other kinds, but for the requests that
    it makes. -/
theorem effectAt_congr {a b : Appendix} (h : n.applyAppendix faults tx a = (effect, n'))
    (hkind : a.kind ≠ b.kind) (request : Nat) :
    n'.effectAt faults tx request b = n.effectAt faults tx request b := by
  cases a with
  | message | encryptedMessage | encryptToSelf =>
    cases h
    rfl
  | announcement a =>
    have hpolls : n'.polls = n.polls :=
      (congrArg (·.2.polls) h).symm.trans (polls_applyAnnouncement n faults tx a)
    cases b with
    | announcement b => exact absurd rfl hkind
    | phasing p => simp only [effectAt, hpolls]
    | message | encryptedMessage | encryptToSelf => rfl
  | phasing p =>
    have hledger : n'.ledger = n.ledger := (of_applyPhasing h).1
    cases b with
    | announcement b => simp only [effectAt, hledger]
    | phasing q => exact absurd rfl hkind
    | message | encryptedMessage | encryptToSelf => rfl

theorem requestsBefore_cons_self {a : Appendix} {as : List Appendix}
    (h : ∀ b ∈ as, a.kind.rank < b.kind.rank) : requestsBefore tx (a :: as) a.kind = 0 := by
  have hnone : (a :: as).filter (fun b => b.kind.rank < a.kind.rank) = [] := by
    rw [List.filter_eq_nil_iff]
    intro b hb hlt
    rcases List.mem_cons.1 hb with rfl | hb
    · simp at hlt
    · have hb := h b hb
      simp only [decide_eq_true_eq] at hlt
      omega
  rw [requestsBefore, hnone]
  rfl

theorem requestsBefore_cons_of_lt {a : Appendix} {k : Kind} (as : List Appendix)
    (h : a.kind.rank < k.rank) :
    requestsBefore tx (a :: as) k = a.requests tx + requestsBefore tx as k := by
  rw [requestsBefore, List.filter_cons_of_pos (by simpa using h), List.map_cons, List.sum_cons]
  rfl

/-- In wire order, each appendix has the effect that it has from the start, with the number that its
    request then has. -/
theorem applyEach_effects (hs : n.polls.Sound) {as : List Appendix} {es : List Effect}
    (horder : as.Pairwise fun a b => a.kind.rank < b.kind.rank)
    (h : n.applyEach faults tx as = (es, n')) :
    es = as.map fun a =>
      n.effectAt faults tx (n.requests + requestsBefore tx as a.kind) a := by
  induction as generalizing n es with
  | nil =>
    cases h
    rfl
  | cons a as ih =>
    obtain ⟨hafter, horder⟩ := List.pairwise_cons.1 horder
    obtain ⟨effect, n₁, rest, happly, hrest, rfl⟩ := of_applyEach_cons h
    obtain ⟨heffect, hrequests⟩ := applyAppendix_effect hs happly
    obtain ⟨m, hstep, -⟩ := applyAppendix_step happly
    rw [List.map_cons, requestsBefore_cons_self hafter, Nat.add_zero, ← heffect,
      ih (hstep.sound hs) horder hrest]
    refine congrArg (effect :: ·) (List.map_congr_left fun b hb => ?_)
    have hlt := hafter b hb
    rw [requestsBefore_cons_of_lt as hlt, hrequests, Nat.add_assoc]
    exact effectAt_congr happly (fun hkind => by simp [hkind] at hlt) _

/-! ### What is left alone -/

/-- What no applied transaction changes: what the accounts hold, all keys but the recipient's, all
    outcomes, and the polls that are pending. -/
structure LeavesAlone (n : Node) (tx : Transaction) (n' : Node) : Prop where
  balance : ∀ a, n'.ledger.balance a = n.ledger.balance a
  assetBalance : ∀ a asset, n'.ledger.assetBalance a asset = n.ledger.assetBalance a asset
  binding : ∀ a, tx.recipient ≠ some a →
    (n'.ledger.account a).binding = (n.ledger.account a).binding
  outcomes : n'.polls.outcomes = n.polls.outcomes
  pending : ∀ id p, n.polls.pending.get? id = some p → n'.polls.pending.get? id = some p

theorem LeavesAlone.of_eq (hledger : n'.ledger = n.ledger) (hpolls : n'.polls = n.polls) :
    n.LeavesAlone tx n' := by
  constructor <;> simp [hledger, hpolls]

theorem LeavesAlone.trans {n'' : Node} (h : n.LeavesAlone tx n') (h' : n'.LeavesAlone tx n'') :
    n.LeavesAlone tx n'' where
  balance a := (h'.balance a).trans (h.balance a)
  assetBalance a asset := (h'.assetBalance a asset).trans (h.assetBalance a asset)
  binding a ha := (h'.binding a ha).trans (h.binding a ha)
  outcomes := h'.outcomes.trans h.outcomes
  pending id p hp := h'.pending id p (h.pending id p hp)

theorem applyAppendix_leavesAlone {a : Appendix} (h : n.applyAppendix faults tx a = (effect, n')) :
    n.LeavesAlone tx n' := by
  cases a with
  | message | encryptedMessage | encryptToSelf =>
    cases h
    exact .of_eq rfl rfl
  | announcement a =>
    cases applyAnnouncement_cases h with
    | idle => exact .of_eq rfl rfl
    | lost => exact .of_eq rfl rfl
    | @bound recipient key hbinding =>
      obtain ⟨hrecipient, -⟩ := Announcement.binding?_eq_some_iff.1 hbinding
      exact {
        balance := n.ledger.balance_bindKey recipient key tx.height
        assetBalance := n.ledger.assetBalance_bindKey recipient key tx.height
        binding := fun a ha => Ledger.binding_bindKey_of_ne _ _ fun he => ha (he ▸ hrecipient)
        outcomes := rfl
        pending := fun _ _ hp => hp }
    | refused => exact .of_eq rfl rfl
  | phasing p =>
    rcases applyPhasing_cases h with ⟨hopens, -, rfl⟩ | ⟨-, -, e, rfl⟩
    · -- a new poll is not stored under the identifier of a pending one
      refine ⟨fun _ => rfl, fun _ _ => rfl, fun _ _ => rfl, rfl, fun id q hq => ?_⟩
      have hid : tx.id ≠ id := by
        rintro rfl
        rw [hopens.pending] at hq
        cases hq
      exact (PollStore.put_of_ne n.polls (p := Poll.ofTransaction tx p) hid).1.trans hq
    · -- the poll is not stored
      exact .of_eq rfl rfl

theorem applyEach_leavesAlone {as : List Appendix} {es : List Effect}
    (h : n.applyEach faults tx as = (es, n')) : n.LeavesAlone tx n' := by
  induction as generalizing n es with
  | nil =>
    cases h
    exact .of_eq rfl rfl
  | cons a as ih =>
    obtain ⟨effect, n₁, rest, happly, hrest, rfl⟩ := of_applyEach_cons h
    exact (applyAppendix_leavesAlone happly).trans (ih hrest)

/-! ### The polls -/

/-- The polls change just if one is opened, and then by that one. -/
theorem applyAppendix_opens {a : Appendix} (h : n.applyAppendix faults tx a = (effect, n')) :
    (effect ≠ .pollOpened tx.id ∧ n'.polls = n.polls) ∨
    effect = .pollOpened tx.id ∧ n.polls.pending.get? tx.id = none ∧
      ∃ p, a = .phasing p ∧ n'.polls = n.polls.put (Poll.ofTransaction tx p) := by
  cases a with
  | message | encryptedMessage | encryptToSelf =>
    cases h
    exact .inl ⟨nofun, rfl⟩
  | announcement a =>
    have hannounces := applyAnnouncement_cases h
    have hpolls := hannounces.polls
    cases hannounces <;> exact .inl ⟨nofun, hpolls⟩
  | phasing p =>
    rcases applyPhasing_cases h with ⟨hopens, rfl, rfl⟩ | ⟨-, rfl, e, rfl⟩
    · -- the poll is opened
      exact .inr ⟨rfl, hopens.pending, p, rfl, rfl⟩
    · -- the poll is not stored
      exact .inl ⟨nofun, rfl⟩

theorem applyEach_opens {as : List Appendix} {es : List Effect}
    (h : n.applyEach faults tx as = (es, n')) :
    (.pollOpened tx.id ∉ es ∧ n'.polls = n.polls) ∨
    .pollOpened tx.id ∈ es ∧ n.polls.pending.get? tx.id = none ∧
      ∃ p, .phasing p ∈ as ∧ n'.polls = n.polls.put (Poll.ofTransaction tx p) := by
  induction as generalizing n es with
  | nil =>
    cases h
    exact .inl ⟨List.not_mem_nil, rfl⟩
  | cons a as ih =>
    obtain ⟨effect, n₁, rest, happly, hrest, rfl⟩ := of_applyEach_cons h
    rcases applyAppendix_opens happly with ⟨hother, hpolls⟩ | ⟨rfl, hnew, p, rfl, hpolls⟩
    · -- the first appendix opens no poll
      rcases ih hrest with ⟨hnone, hpolls'⟩ | ⟨hopened, hnew, p, hp, hpolls'⟩
      · exact .inl ⟨by simp [hnone, hother.symm], hpolls'.trans hpolls⟩
      · rw [hpolls] at hnew hpolls'
        exact .inr ⟨List.mem_cons_of_mem _ hopened, hnew, p, List.mem_cons_of_mem _ hp, hpolls'⟩
    · -- the first appendix opens the poll
      refine .inr ⟨List.mem_cons_self, hnew, p, List.mem_cons_self, ?_⟩
      -- the poll is pending now, so no other one is opened under its identifier
      rcases ih hrest with ⟨-, hpolls'⟩ | ⟨-, hnew', -⟩
      · exact hpolls'.trans hpolls
      · have hput := n.polls.put_self (Poll.ofTransaction tx p)
        rw [hpolls] at hnew'
        exact nomatch hnew'.symm.trans hput

/-! ### The key of the recipient -/

/-- A key that an announcement has bound is the key of its account after all appendices. -/
theorem publicKey?_of_keyBound {as : List Appendix} {es : List Effect} {a : Announcement}
    {recipient : AccountId} {key : PublicKey} (h : n.applyEach faults tx as = (es, n'))
    (hkey : a.key? = some key) (hbound : (.announcement a, .keyBound recipient) ∈ as.zip es) :
    n'.ledger.publicKey? recipient = some key := by
  induction as generalizing n es with
  | nil => cases hbound
  | cons b as ih =>
    obtain ⟨effect, n₁, rest, happly, hrest, rfl⟩ := of_applyEach_cons h
    rcases List.mem_cons.1 hbound with hhead | hlater
    · -- the announcement comes first
      cases hhead
      apply (applyEach_binds hrest).key
      -- it has bound the key, and later appendices leave that as it is
      cases applyAnnouncement_cases happly with
      | bound hbinding _ hbind =>
        obtain ⟨-, hkey'⟩ := Announcement.binding?_eq_some_iff.1 hbinding
        rw [hkey] at hkey'
        cases hkey'
        exact Ledger.publicKey?_of_bound hbind
    · -- the announcement comes later
      exact ih hrest hlater

/-! ### Applying a set -/

/-- In any state that a node can get into and whatever requests are lost, applying a set gives each
    of its appendices the effect that was to be expected, in wire order. Nothing changes besides but
    the key of the recipient and the polls, and these only by the poll that was opened. If the node
    admits the set as it is, and the request is not lost, the announced key is bound. -/
theorem apply_effects (hn : n.Reachable) {es : List Effect}
    (h : n.apply faults tx s = (es, n')) :
    (es = s.toList.map fun a =>
      n.effectAt faults tx (n.requests + requestsBefore tx s.toList a.kind) a) ∧
    n.LeavesAlone tx n' ∧
    (.pollOpened tx.id ∉ es → n'.polls = n.polls) ∧
    (.pollOpened tx.id ∈ es → ∃ p, s.phasing = some p ∧
      n'.polls = { n.polls with
        pending := n.polls.pending.insert tx.id
          { id := tx.id
            maxHeight := p.maxHeight
            model := p.weighting.model
            quorum := p.quorum
            threshold := p.threshold
            assetId := p.weighting.assetId
            voters := p.voters
            sender := tx.sender
            recipient := tx.recipient
            amount := tx.amount
            createdHeight := tx.height
            votes := .empty } }) ∧
    (n.Admits tx s → faults.ledger n.requests .bindKey = none →
      ∀ a, s.announcement = some a → ∃ recipient key,
        tx.recipient = some recipient ∧ a.key? = some key ∧
        (.announcement a, .keyBound recipient) ∈ s.toList.zip es ∧
        n'.ledger.publicKey? recipient = some key) := by
  have hopens := applyEach_opens h
  refine ⟨applyEach_effects hn.sound s.pairwise_toList h, applyEach_leavesAlone h, ?_, ?_, ?_⟩
  · -- no poll is opened
    intro hnone
    rcases hopens with ⟨-, hpolls⟩ | ⟨hopened, -⟩
    · exact hpolls
    · exact absurd hopened hnone
  · -- the poll is opened
    intro hopened
    rcases hopens with ⟨hnone, -⟩ | ⟨-, -, p, hp, hpolls⟩
    · exact absurd hopened hnone
    · exact ⟨p, AppendixSet.mem_toList_phasing.1 hp, hpolls⟩
  · -- the announced key is bound
    intro hadmits hkept a ha
    obtain ⟨recipient, key, hrecipient, hkey, -, hkeys⟩ := hadmits.announcement ha
    have hbound := mem_effects_of_announcement ha hrecipient hkey hkeys hkept
    rw [h] at hbound
    exact ⟨recipient, key, hrecipient, hkey, hbound, publicKey?_of_keyBound h hkey hbound⟩

/-- A ledger that loses every request to bind a key. -/
def bindingsLost : Faults where
  ledger _ request := if request = .bindKey then some "down" else none
  store _ _ := none

/-- A key and a poll are announced to a new node. Where the key cannot be bound, the poll is opened
    nevertheless; where it can, the recipient has it afterwards. -/
theorem apply_effects_announcedWith :
    ((ofLedger .empty).apply bindingsLost (paymentAt 100) (.announcedWith .account)).1 =
        [.ledgerFault, .pollOpened 7] ∧
      (((ofLedger .empty).apply bindingsLost (paymentAt 100)
        (.announcedWith .account)).2.polls.pending.get? 7).map Poll.maxHeight = some 200 ∧
      ((ofLedger .empty).apply .none (paymentAt 100)
        (.announcedWith .account)).2.ledger.publicKey? (accountId AppendixSet.announcedKey.bytes) =
          some AppendixSet.announcedKey := by
  have hlost : ((AppendixSet.announcedWith .account).toList.map fun a =>
      (ofLedger .empty).effectAt bindingsLost (paymentAt 100)
        (0 + requestsBefore (paymentAt 100) (AppendixSet.announcedWith .account).toList a.kind) a) =
      [.ledgerFault, .pollOpened 7] := by
    decide +kernel
  have hadmits : (ofLedger .empty).Admits (paymentAt 100) (.announcedWith .account) := by
    have hkept : ((AppendixSet.announcedWith .account).refusal? (paymentAt 100) .standard
        ((ofLedger .empty).keys .none)).isNone = true := by decide +kernel
    exact ⟨.none, .standard, validate_eq_ok_iff.2 (Option.isNone_iff_eq_none.1 hkept)⟩
  obtain ⟨hexpected, -, -, hopened, -⟩ :=
    apply_effects (.start _) (Prod.eta ((ofLedger .empty).apply bindingsLost (paymentAt 100)
      (.announcedWith .account))).symm
  obtain ⟨-, -, -, -, hbound⟩ :=
    apply_effects (.start _) (Prod.eta ((ofLedger .empty).apply .none (paymentAt 100)
      (.announcedWith .account))).symm
  have heffects := hexpected.trans hlost
  obtain ⟨p, hp, hpolls⟩ := hopened (by rw [heffects]; decide)
  obtain ⟨recipient, key, hrecipient, hkey, -, hkeys⟩ := hbound hadmits rfl _ rfl
  cases hp
  have haccount : accountId AppendixSet.announcedKey.bytes = recipient :=
    Option.some.inj hrecipient
  have hinsert := Table.get?_insert_self (ofLedger .empty).polls.pending (paymentAt 100).id
  refine ⟨heffects, ?_, ?_⟩
  · rw [hpolls]
    exact congrArg (Option.map Poll.maxHeight) (hinsert _)
  · have hannounced : (Announcement.ofKey AppendixSet.announcedKey).key? =
        some AppendixSet.announcedKey := by decide +kernel
    rw [haccount, hkeys, ← hkey, hannounced]

end Node

end LedgerAppendix
