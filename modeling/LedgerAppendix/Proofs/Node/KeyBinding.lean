import LedgerAppendix.Proofs.Appendix.Refusals
import LedgerAppendix.Proofs.Node.Admission

/-!
# The keys of accounts over a run

Of all calls, only `apply` binds keys, and the effects that it replies with say whose. What the
others do to the ledger is to credit amounts. So the keys after a run, and their heights, follow
from those before it and from the replies, whatever polls there are and whichever requests are lost.

That a key belongs to the account that it is bound to is checked on admission only. It holds
throughout a run if nothing is applied that would not be admitted there and then.
-/

namespace LedgerAppendix

/-- The heights at which a call has bound the key of an account, by its reply. -/
def Call.boundHeights (a : AccountId) : Call → Reply → List UInt32
  | .apply tx _, .effects es => (es.filter (· = .keyBound a)).map fun _ => tx.height
  | _, _ => []

/-- The heights at which the calls of a run have bound the key of an account, by the replies. -/
def boundHeights (a : AccountId) (calls : List (Config × Call)) (replies : List Reply) :
    List UInt32 :=
  (calls.zip replies).flatMap fun (call, reply) => call.2.boundHeights a reply

namespace Node

variable {faults : Faults} {n n' : Node}

/-! ### Calls that bind no keys -/

theorem sameKeys_resolve {id : TransactionId} {outcome : PollOutcome}
    {r : Except PollError Resolution} (h : n.resolve faults id outcome = (r, n')) :
    n.ledger.SameKeys n'.ledger := by
  rcases ledger_of_resolve h with hsame | ⟨account?, amount, hpaid⟩
  · exact .of_eq hsame
  · cases account? with
    | none => exact .of_eq (Except.ok.inj hpaid).symm
    | some account => exact Ledger.sameKeys_credit hpaid

theorem sameKeys_resolveEach {early : Bool} {height : UInt32} {ps : List Poll}
    {report : HeightReport} (h : n.resolveEach faults early height ps = (report, n')) :
    n.ledger.SameKeys n'.ledger := by
  induction ps generalizing n report with
  | nil =>
    cases h
    exact .refl _
  | cons p ps ih =>
    rcases resolveEach_cons_cases h with ⟨-, hrest⟩ |
      ⟨outcome, r, n₁, rest, -, hresolve, hrest, -⟩ |
      ⟨outcome, e, n₁, rest, -, hresolve, hrest, -⟩
    · exact ih hrest
    · exact (sameKeys_resolve hresolve).trans (ih hrest)
    · have hleft : (n₁.record (.pollLeft p.id height e)).ledger.SameKeys n'.ledger := ih hrest
      exact (sameKeys_resolve hresolve).trans hleft

theorem sameKeys_resolveDue {early : Bool} {height : UInt32} {r : Except PollError HeightReport}
    (h : n.resolveDue faults early height = (r, n')) : n.ledger.SameKeys n'.ledger := by
  rcases resolveDue_cases h with ⟨e, -, rfl⟩ | ⟨report, n₁, -, heach, hdone⟩
  · exact .refl _
  · have hkeys : n.ledger.SameKeys n₁.ledger := sameKeys_resolveEach (n := n.tick) heach
    rcases hdone with rfl | rfl
    · exact hkeys
    · exact hkeys

/-! ### The keys after a call -/

theorem applyAnnouncement_binds {tx : Transaction} {a : Announcement} {effect : Effect}
    (h : n.applyAnnouncement faults tx a = (effect, n')) :
    n.ledger.Binds n'.ledger fun b => if effect = .keyBound b then [tx.height] else [] := by
  cases applyAnnouncement_cases h with
  | idle => exact (Ledger.SameKeys.refl _).binds
  | lost => exact (Ledger.SameKeys.refl _).binds
  | @bound recipient key _ _ hbound =>
    have hbinds := n.ledger.binds_bindKey recipient key tx.height
    rw [hbound] at hbinds
    simpa [record] using hbinds
  | refused => exact (Ledger.SameKeys.refl _).binds

theorem of_applyPhasing {tx : Transaction} {p : Phasing} {effect : Effect}
    (h : n.applyPhasing faults tx p = (effect, n')) :
    n'.ledger = n.ledger ∧ ∀ a, effect ≠ .keyBound a := by
  rcases applyPhasing_cases h with ⟨-, rfl, rfl⟩ | ⟨-, rfl, e, rfl⟩
  · exact ⟨rfl, nofun⟩
  · exact ⟨rfl, nofun⟩

theorem applyAppendix_binds {tx : Transaction} {a : Appendix} {effect : Effect}
    (h : n.applyAppendix faults tx a = (effect, n')) :
    n.ledger.Binds n'.ledger fun b => if effect = .keyBound b then [tx.height] else [] := by
  cases a with
  | announcement a => exact applyAnnouncement_binds h
  | phasing p =>
    obtain ⟨hledger, heffect⟩ := of_applyPhasing h
    simp only [hledger, if_neg (heffect _)]
    exact (Ledger.SameKeys.refl _).binds
  | message | encryptedMessage | encryptToSelf =>
    cases h
    exact (Ledger.SameKeys.refl _).binds

theorem applyEach_binds {tx : Transaction} {as : List Appendix} {es : List Effect}
    (h : n.applyEach faults tx as = (es, n')) :
    n.ledger.Binds n'.ledger fun b => (es.filter (· = .keyBound b)).map fun _ => tx.height := by
  induction as generalizing n es with
  | nil =>
    cases h
    exact (Ledger.SameKeys.refl _).binds
  | cons a as ih =>
    obtain ⟨effect, n₁, rest, happly, hrest, rfl⟩ := of_applyEach_cons h
    have hbinds := (applyAppendix_binds happly).trans (ih hrest)
    have hheights : ∀ b, ((effect :: rest).filter (· = .keyBound b)).map (fun _ => tx.height) =
        (if effect = .keyBound b then [tx.height] else []) ++
          (rest.filter (· = .keyBound b)).map fun _ => tx.height := by
      intro b
      by_cases hb : effect = .keyBound b <;> simp [hb]
    rw [funext hheights]
    exact hbinds

/-- The keys after a call follow from those before it and from the reply. -/
theorem perform_binds {config : Config} {call : Call} {reply : Reply}
    (h : n.perform faults config call = (reply, n')) :
    n.ledger.Binds n'.ledger (call.boundHeights · reply) := by
  cases call with
  | parseBytes flags data version =>
    cases h
    exact (Ledger.SameKeys.of_eq (parseBytes_leaves ..).1).binds
  | parseObject o =>
    cases h
    exact (Ledger.SameKeys.of_eq (parseObject_leaves ..).1).binds
  | validate tx s =>
    cases h
    exact (Ledger.SameKeys.of_eq (validate_leaves ..).1).binds
  | apply tx s =>
    cases h
    exact applyEach_binds rfl
  | vote id voter height =>
    cases h
    exact (Ledger.SameKeys.of_eq (vote_leaves rfl).1).binds
  | commit id =>
    cases h
    exact (sameKeys_resolve rfl).binds
  | rollback id =>
    cases h
    exact (sameKeys_resolve rfl).binds
  | resolveDue height =>
    cases h
    exact (sameKeys_resolveDue rfl).binds
  | status id =>
    cases h
    exact (Ledger.SameKeys.of_eq (status_leaves ..).1).binds

theorem run_binds {calls : List (Config × Call)} {replies : List Reply}
    (h : n.run faults calls = (replies, n')) :
    n.ledger.Binds n'.ledger (boundHeights · calls replies) := by
  induction calls generalizing n replies with
  | nil =>
    cases h
    exact (Ledger.SameKeys.refl _).binds
  | cons call calls ih =>
    obtain ⟨reply, n₁, rest, hperform, hrest, rfl⟩ := of_run_cons h
    exact (perform_binds hperform).trans (ih hrest)

end Node

/-! ### Keys of their accounts -/

/-- Every key is bound to the account that it belongs to. -/
def Ledger.OwnKeys (l : Ledger) : Prop := ∀ a k, l.publicKey? a = some k → accountId k.bytes = a

namespace Node

variable {faults : Faults} {n n' : Node} {tx : Transaction} {s : AppendixSet}

/-- The node admits the set as it is now, under some configuration and if the request for the key
    is not lost. -/
def Admits (n : Node) (tx : Transaction) (s : AppendixSet) : Prop :=
  ∃ faults config, (n.perform faults config (.validate tx s)).1 = .admission (.ok ())

/-- Whatever is applied in a run, a node as it is then would admit it. -/
def AppliesAdmitted (n : Node) (faults : Faults) (calls : List (Config × Call)) : Prop :=
  ∀ before config tx s after, calls = before ++ (config, .apply tx s) :: after →
    (n.run faults before).2.Admits tx s

theorem appliesAdmitted_nil (n : Node) (faults : Faults) : n.AppliesAdmitted faults [] := by
  intro before config tx s after hcalls
  cases before <;> cases hcalls

theorem appliesAdmitted_cons_iff {call : Config × Call} {calls : List (Config × Call)} :
    n.AppliesAdmitted faults (call :: calls) ↔
      (∀ tx s, call.2 = .apply tx s → n.Admits tx s) ∧
        (n.perform faults call.1 call.2).2.AppliesAdmitted faults calls := by
  constructor
  · refine fun h => ⟨fun tx s hcall => ?_, fun before config tx s after hcalls => ?_⟩
    · exact h [] call.1 tx s calls (congrArg (fun c => (call.1, c) :: calls) hcall)
    · exact h (call :: before) config tx s after (congrArg (call :: ·) hcalls)
  · rintro ⟨hfirst, hrest⟩ before config tx s after hcalls
    cases before with
    | nil =>
      cases hcalls
      exact hfirst tx s rfl
    | cons first before =>
      cases hcalls
      exact hrest before config tx s after rfl

theorem of_keys {a : AccountId} {k? : Option PublicKey} (h : n.keys faults a = .ok k?) :
    k? = n.ledger.publicKey? a := by
  have hasked : n.publicKey faults a = (.ok k?, (n.publicKey faults a).2) := Prod.ext h rfl
  exact ((of_askLedger (·.publicKey? a) hasked).2 k? rfl).symm

/-- What is announced and admitted is a key of the recipient, who has no other one. -/
theorem Admits.announcement (h : n.Admits tx s) {a : Announcement} (ha : s.announcement = some a) :
    ∃ recipient key, tx.recipient = some recipient ∧ a.key? = some key ∧
      accountId key.bytes = recipient ∧
      ∀ k, n.ledger.publicKey? recipient = some k → k = key := by
  obtain ⟨faults, config, hok⟩ := h
  obtain ⟨-, hrules⟩ := AppendixSet.refusal?_eq_none_iff.1 (validate_eq_ok_iff.1 hok)
  obtain ⟨hviolation, hconflict⟩ := hrules _ (AppendixSet.mem_toList_announcement.2 ha)
  have hrecipient := Announcement.recipient_of_violation? hviolation
  have hlength := Announcement.of_violation? hviolation
  obtain ⟨bound?, hkeys, hsame⟩ := Announcement.of_conflict? hrecipient hconflict
  rw [of_keys hkeys] at hsame
  refine ⟨_, ⟨a.key, hlength⟩, hrecipient, dif_pos hlength, rfl, fun k hk => ?_⟩
  have hbytes := hsame k hk
  cases k
  cases hbytes
  rfl

theorem applyAnnouncement_ownKeys {a : Announcement} {effect : Effect}
    (h : n.applyAnnouncement faults tx a = (effect, n'))
    (hown : ∀ recipient key, tx.recipient = some recipient → a.key? = some key →
      accountId key.bytes = recipient) (hn : n.ledger.OwnKeys) : n'.ledger.OwnKeys := by
  cases applyAnnouncement_cases h with
  | idle => exact hn
  | lost => exact hn
  | bound hbinding =>
    obtain ⟨hrecipient, hkey⟩ := Announcement.binding?_eq_some_iff.1 hbinding
    intro a k hk
    rcases Ledger.of_publicKey?_bindKey hk with ⟨rfl, rfl⟩ | hbefore
    · exact hown _ _ hrecipient hkey
    · exact hn a k hbefore
  | refused => exact hn

theorem applyEach_ownKeys {as : List Appendix} {es : List Effect}
    (h : n.applyEach faults tx as = (es, n'))
    (hown : ∀ a, .announcement a ∈ as → ∀ recipient key, tx.recipient = some recipient →
      a.key? = some key → accountId key.bytes = recipient)
    (hn : n.ledger.OwnKeys) : n'.ledger.OwnKeys := by
  induction as generalizing n es with
  | nil =>
    cases h
    exact hn
  | cons a as ih =>
    obtain ⟨effect, n₁, rest, happly, hrest, rfl⟩ := of_applyEach_cons h
    refine ih hrest (fun b hb => hown b (List.mem_cons_of_mem _ hb)) ?_
    cases a with
    | announcement a => exact applyAnnouncement_ownKeys happly (hown a List.mem_cons_self) hn
    | phasing p => exact (of_applyPhasing happly).1 ▸ hn
    | message | encryptedMessage | encryptToSelf =>
      cases happly
      exact hn

/-- Where nothing is applied that would not be admitted, keys stay those of their accounts. -/
theorem perform_ownKeys {config : Config} {call : Call} {reply : Reply}
    (h : n.perform faults config call = (reply, n'))
    (hadmits : ∀ tx s, call = .apply tx s → n.Admits tx s) (hn : n.ledger.OwnKeys) :
    n'.ledger.OwnKeys := by
  have hbinds := perform_binds h
  cases call with
  | apply tx s =>
    cases h
    refine applyEach_ownKeys rfl (fun a ha recipient key hrecipient hkey => ?_) hn
    obtain ⟨_, _, hrecipient', hkey', hown, -⟩ :=
      (hadmits tx s rfl).announcement (AppendixSet.mem_toList_announcement.1 ha)
    rw [hrecipient] at hrecipient'
    rw [hkey] at hkey'
    cases hrecipient'
    cases hkey'
    exact hown
  -- no other call has a height to tell of, and so no key comes with it
  | _ => exact fun a k hk => hn a k (hbinds.publicKey?_of_nil rfl ▸ hk)

theorem run_ownKeys {calls : List (Config × Call)} {replies : List Reply}
    (h : n.run faults calls = (replies, n')) (hadmitted : n.AppliesAdmitted faults calls)
    (hn : n.ledger.OwnKeys) : n'.ledger.OwnKeys := by
  induction calls generalizing n replies with
  | nil =>
    cases h
    exact hn
  | cons call calls ih =>
    obtain ⟨reply, n₁, rest, hperform, hrest, rfl⟩ := of_run_cons h
    obtain ⟨hadmits, hlater⟩ := appliesAdmitted_cons_iff.1 hadmitted
    rw [hperform] at hlater
    exact ih hrest hlater (perform_ownKeys hperform hadmits hn)

/-! ### The effect of an announcement -/

/-- What comes before the announcement on the wire has no effect, and makes no request. -/
theorem applyEach_before {before : List Appendix}
    (hbefore : ∀ b ∈ before, b.kind.rank < Kind.announcement.rank) (as : List Appendix) :
    n.applyEach faults tx (before ++ as) =
      (before.map (fun _ => .none) ++ (n.applyEach faults tx as).1,
        (n.applyEach faults tx as).2) := by
  induction before with
  | nil => rfl
  | cons b before ih =>
    obtain ⟨hb, hrest⟩ := List.forall_mem_cons.1 hbefore
    have hnone : n.applyAppendix faults tx b = (.none, n) := by
      cases b with
      | message => rfl
      | encryptedMessage => rfl
      | announcement | encryptToSelf | phasing => simp [Appendix.kind, Kind.rank] at hb
    rw [List.cons_append, applyEach, hnone]
    dsimp only
    rw [ih hrest]
    rfl

/-- An announcement binds its key unless the request is lost or the recipient has another one. -/
theorem mem_effects_of_announcement {a : Announcement} (ha : s.announcement = some a)
    {recipient : AccountId} {key : PublicKey} (hrecipient : tx.recipient = some recipient)
    (hkey : a.key? = some key) (hkeys : ∀ k, n.ledger.publicKey? recipient = some k → k = key)
    (hkept : faults.ledger n.requests .bindKey = none) :
    (.announcement a, .keyBound recipient) ∈ s.toList.zip (n.apply faults tx s).1 := by
  have heffect : (n.applyAnnouncement faults tx a).1 = .keyBound recipient := by
    have hbinding := Announcement.binding?_eq_some_iff.2 ⟨hrecipient, hkey⟩
    have hbound : (n.ledger.bindKey recipient key tx.height).1 = true :=
      Ledger.bindKey_eq_true_iff.2 hkeys
    generalize happly : n.applyAnnouncement faults tx a = answer
    obtain ⟨effect, n'⟩ := answer
    cases applyAnnouncement_cases happly with
    | idle hnone =>
      rw [hbinding] at hnone
      cases hnone
    | lost _ hlost =>
      rw [hkept] at hlost
      cases hlost
    | bound hsome =>
      rw [hbinding] at hsome
      cases hsome
      rfl
    | refused hsome _ hrefused =>
      rw [hbinding] at hsome
      cases hsome
      rw [hbound] at hrefused
      cases hrefused
  -- only messages come before it, so its request is the first one that is made
  obtain ⟨before, after, hlist⟩ :=
    List.append_of_mem (AppendixSet.mem_toList_announcement.2 ha)
  have horder := hlist ▸ s.pairwise_toList
  have hbefore : ∀ b ∈ before, b.kind.rank < Kind.announcement.rank :=
    fun b hb => (List.pairwise_append.1 horder).2.2 b hb _ List.mem_cons_self
  rw [apply, hlist, applyEach_before hbefore, List.zip_append (by simp), ← heffect]
  exact List.mem_append_right _ List.mem_cons_self

/-! ### Runs -/

/-- The reply to a call in a run is that of the node as the calls before it have left it. -/
theorem getElem?_run (n : Node) (faults : Faults) (before : List (Config × Call)) (config : Config)
    (call : Call) (after : List (Config × Call)) :
    (n.run faults (before ++ (config, call) :: after)).1[before.length]? =
      some ((n.run faults before).2.perform faults config call).1 := by
  induction before generalizing n with
  | nil => rfl
  | cons first before ih => exact ih (n.perform faults first.1 first.2).2

/-- Over a run, from any ledger and any polls and whichever requests are lost, an account has a
    height for its key just if it has a key, and keeps the key that it has once it has one. Its
    height is the least of the one before the run and all at which a reply says that it was bound.

    If there were no keys in the beginning and nothing is applied that would not be admitted there
    and then, every key is bound to the account that it belongs to, and an announcement says that
    it has bound the recipient's key, unless the request to do so is lost. -/
theorem run_keys {calls : List (Config × Call)} {replies : List Reply}
    (hrun : n.run faults calls = (replies, n')) :
    (∀ a, (n'.ledger.keyHeight? a).isSome = (n'.ledger.publicKey? a).isSome) ∧
    (∀ a, n'.ledger.keyHeight? a =
      ((n.ledger.keyHeight? a).toList ++ boundHeights a calls replies).min?) ∧
    (∀ a k, n'.ledger.publicKey? a = some k → ∀ faults' later,
      (n'.run faults' later).2.ledger.publicKey? a = some k) ∧
    ((∀ a, n.ledger.publicKey? a = none) → n.AppliesAdmitted faults calls →
      n'.ledger.OwnKeys ∧
      ∀ before config tx s after, calls = before ++ (config, .apply tx s) :: after →
        ∀ a, s.announcement = some a →
          faults.ledger (n.run faults before).2.requests .bindKey = none →
          ∃ recipient es, tx.recipient = some recipient ∧
            replies[before.length]? = some (.effects es) ∧
            (.announcement a, .keyBound recipient) ∈ s.toList.zip es) := by
  refine ⟨n'.ledger.isSome_keyHeight?, (run_binds hrun).height, ?_, ?_⟩
  · -- a key stays
    intro a k hk faults' later
    exact (run_binds (Prod.eta (n'.run faults' later)).symm).key a k hk
  · intro hnone hadmitted
    constructor
    · -- bound to its owner
      refine run_ownKeys hrun hadmitted fun a k hk => ?_
      rw [hnone] at hk
      cases hk
    · -- what an announcement says
      intro before config tx s after hcalls a ha hkept
      obtain ⟨recipient, key, hrecipient, hkey, -, hkeys⟩ :=
        (hadmitted before config tx s after hcalls).announcement ha
      refine ⟨recipient, ((n.run faults before).2.apply faults tx s).1, hrecipient, ?_,
        mem_effects_of_announcement ha hrecipient hkey hkeys hkept⟩
      have hreply := getElem?_run n faults before config (.apply tx s) after
      rw [← hcalls, hrun] at hreply
      exact hreply

/-! ### A run -/

/-- A payment at a height to the account of a key, which it announces. -/
def paymentAt (height : UInt32) : Transaction := { AppendixSet.paymentToKey with height }

def announced : AppendixSet :=
  { AppendixSet.empty with announcement := some (.ofKey AppendixSet.announcedKey) }

/-- The key is announced twice, the second time below the first. -/
def announcedTwice : List (Config × Call) :=
  [(.standard, .apply (paymentAt 100) announced), (.standard, .apply (paymentAt 50) announced)]

/-- Both announcements are admitted, so both bind the key, and the lower height is kept. -/
theorem run_keys_announcedTwice :
    ((ofLedger .empty).run .none announcedTwice).2.ledger.keyHeight?
        (accountId AppendixSet.announcedKey.bytes) = some 50 ∧
      ((ofLedger .empty).run .none announcedTwice).2.ledger.OwnKeys ∧
      ∃ es, ((ofLedger .empty).run .none announcedTwice).1[1]? = some (.effects es) ∧
        .keyBound (accountId AppendixSet.announcedKey.bytes) ∈ es := by
  have hfirst : (announced.refusal? (paymentAt 100) .standard
      ((ofLedger .empty).keys .none)).isNone = true := by decide +kernel
  have hsecond : (announced.refusal? (paymentAt 50) .standard (((ofLedger .empty).perform .none
      .standard (.apply (paymentAt 100) announced)).2.keys .none)).isNone = true := by
    decide +kernel
  have hadmitted : (ofLedger .empty).AppliesAdmitted .none announcedTwice := by
    refine appliesAdmitted_cons_iff.2
      ⟨?_, appliesAdmitted_cons_iff.2 ⟨?_, appliesAdmitted_nil _ _⟩⟩
    · rintro tx s hcall
      cases hcall
      exact ⟨.none, .standard, validate_eq_ok_iff.2 (Option.isNone_iff_eq_none.1 hfirst)⟩
    · rintro tx s hcall
      cases hcall
      exact ⟨.none, .standard, validate_eq_ok_iff.2 (Option.isNone_iff_eq_none.1 hsecond)⟩
  have hheights : boundHeights (accountId AppendixSet.announcedKey.bytes) announcedTwice
      ((ofLedger .empty).run .none announcedTwice).1 = [100, 50] := by
    decide +kernel
  obtain ⟨-, hheight, -, hsafe⟩ :=
    run_keys (Prod.eta ((ofLedger .empty).run .none announcedTwice)).symm
  obtain ⟨hown, heffects⟩ := hsafe (fun _ => rfl) hadmitted
  obtain ⟨recipient, es, hrecipient, hreply, hbound⟩ :=
    heffects [_] .standard (paymentAt 50) announced [] rfl _ rfl rfl
  have haccount : accountId AppendixSet.announcedKey.bytes = recipient :=
    Option.some.inj hrecipient
  rw [← haccount] at hbound
  refine ⟨?_, hown, es, hreply, (List.of_mem_zip hbound).2⟩
  rw [hheight, hheights]
  rfl

end Node

end LedgerAppendix
