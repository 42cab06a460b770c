import LedgerAppendix.Proofs.Appendix.Admission
import LedgerAppendix.Proofs.Attachment.Refusals
import LedgerAppendix.Proofs.Wire.Requests

/-!
# What a refusal says about later

A set is refused either because one of its appendices breaks a rule, which no ledger mends, or
because its announcement does not agree with the ledger. The class of the refusal tells the two
apart, and bytes or fields that cannot be read are told apart from both.

Only the first refusal in wire order is reported. So a conflict says that everything before the
announcement keeps to the rules, and nothing about what comes after it.
-/

namespace LedgerAppendix

/-- The keys that a ledger has, looked up without a fault. -/
def Ledger.keys (l : Ledger) : KeyLookup := fun a => .ok (l.publicKey? a)

variable {tx : Transaction} {limits : Limits} {keys : KeyLookup}

namespace Appendix

/-- Only an announcement has a conflict. -/
theorem conflict?_eq_some_iff {a : Appendix} {conflict : Conflict} :
    a.conflict? tx keys = some conflict ↔
      ∃ b, a = .announcement b ∧ b.conflict? tx keys = some conflict := by
  cases a <;> simp [conflict?]

/-- An appendix in itself is refused for a rule, or for what an announcement conflicts with. -/
theorem of_refusal?_eq_some {a : Appendix} {e : AppendixError}
    (h : a.refusal? tx limits keys = some e) :
    (∃ v, a.violation? tx limits = some v ∧ e = .notValid v) ∨
      ∃ b conflict, a = .announcement b ∧ b.violation? tx = none ∧
        b.conflict? tx keys = some conflict ∧ e = .notCurrentlyValid conflict := by
  unfold refusal? at h
  split at h
  · next v hv =>
    cases h
    exact .inl ⟨v, hv, rfl⟩
  · next hv =>
    obtain ⟨conflict, hconflict, rfl⟩ := Option.map_eq_some_iff.1 h
    obtain ⟨b, rfl, hb⟩ := conflict?_eq_some_iff.1 hconflict
    exact .inr ⟨b, conflict, rfl, hv, hb, rfl⟩

end Appendix

namespace AppendixSet

variable {s : AppendixSet}

theorem validate_eq_ok_iff :
    s.validate tx limits keys = .ok () ↔ s.refusal? tx limits keys = none := by
  unfold validate
  split <;> next h => simp [h]

theorem validate_error_iff {e : AppendixError} :
    s.validate tx limits keys = .error e ↔
      ∃ r, s.refusal? tx limits keys = some r ∧ r.error = e := by
  unfold validate
  split <;> next h => simp [h]

/-- Every appendix of the set keeps to the rules that have nothing to do with a ledger. -/
def KeepsRules (s : AppendixSet) (tx : Transaction) (limits : Limits) : Prop :=
  (∀ a ∈ s.toList, a.fitsVersion tx.version = true) ∧
    ∀ a ∈ s.toList, a.violation? tx limits = none

theorem keepsRules_of_validate (h : s.validate tx limits keys = .ok ()) :
    s.KeepsRules tx limits := by
  obtain ⟨hversions, hrules⟩ := refusal?_eq_none_iff.1 (validate_eq_ok_iff.1 h)
  exact ⟨hversions, fun a ha => (hrules a ha).1⟩

/-- A set that keeps to the rules is admitted where its announcement agrees with the ledger. -/
theorem validate_of_keepsRules (h : s.KeepsRules tx limits)
    (hkeys : ∀ a, s.announcement = some a → a.conflict? tx keys = none) :
    s.validate tx limits keys = .ok () := by
  refine validate_eq_ok_iff.2 (refusal?_eq_none_iff.2 ⟨h.1, fun b hb => ⟨h.2 b hb, ?_⟩⟩)
  refine Option.eq_none_iff_forall_ne_some.2 fun conflict hconflict => ?_
  obtain ⟨a, rfl, ha⟩ := Appendix.conflict?_eq_some_iff.1 hconflict
  rw [hkeys a (mem_toList_announcement.1 hb)] at ha
  cases ha

/-- The announcement of a set, between what comes before it and after it on the wire, does not
    agree with the ledger, and nothing before it and no version is at fault. -/
structure FirstConflict (s : AppendixSet) (tx : Transaction) (limits : Limits) (keys : KeyLookup)
    (before : List Appendix) (a : Announcement) (after : List Appendix) (conflict : Conflict) :
    Prop where
  toList : s.toList = before ++ .announcement a :: after
  conflict : a.conflict? tx keys = some conflict
  versions : ∀ b ∈ s.toList, b.fitsVersion tx.version = true
  rules : a.violation? tx = none
  before : ∀ b ∈ before, b.violation? tx limits = none

/-- A set is refused for a rule that one of its appendices breaks, or for the conflict of its
    announcement with the ledger. -/
theorem of_validate_eq_error {e : AppendixError} (h : s.validate tx limits keys = .error e) :
    (∃ v, e = .notValid v ∧ ¬s.KeepsRules tx limits) ∨
      ∃ before a after conflict, e = .notCurrentlyValid conflict ∧
        s.FirstConflict tx limits keys before a after conflict := by
  obtain ⟨r, hr, rfl⟩ := validate_error_iff.1 h
  rcases refusal?_eq_some_iff.1 hr with hversion | ⟨hversions, hr⟩
  · -- an appendix has the wrong version
    obtain ⟨a, hfirst, rfl⟩ := Option.map_eq_some_iff.1 hversion
    refine .inl ⟨_, rfl, fun hkeeps => ?_⟩
    have hfits := hkeeps.1 a (List.mem_of_find?_eq_some hfirst)
    simpa [hfits] using List.find?_some hfirst
  · -- an appendix is refused by itself
    obtain ⟨before, b, after, hlist, hb, hbefore⟩ := List.findSome?_eq_some_iff.1 hr
    obtain ⟨e, he, rfl⟩ := Option.map_eq_some_iff.1 hb
    rcases Appendix.of_refusal?_eq_some he with ⟨v, hv, rfl⟩ | ⟨a, conflict, rfl, hrules, hc, rfl⟩
    · -- it breaks a rule
      refine .inl ⟨v, rfl, fun hkeeps => ?_⟩
      have hmem : b ∈ s.toList := hlist ▸ List.mem_append_right _ List.mem_cons_self
      rw [hkeeps.2 b hmem] at hv
      cases hv
    · -- it is the announcement, and it breaks no rule
      refine .inr ⟨before, a, after, conflict, rfl, hlist, hc,
        versionRefusal?_eq_none_iff.1 hversions, hrules, fun b hb => ?_⟩
      exact (Appendix.refusal?_eq_none_iff.1 (Option.map_eq_none_iff.1 (hbefore b hb))).1

namespace FirstConflict

variable {before after : List Appendix} {a : Announcement} {conflict : Conflict}

theorem announcement (h : s.FirstConflict tx limits keys before a after conflict) :
    s.announcement = some a :=
  mem_toList_announcement.1 (h.toList ▸ List.mem_append_right _ List.mem_cons_self)

/-- The conflict is what the set is refused for. -/
theorem validate_eq (h : s.FirstConflict tx limits keys before a after conflict) :
    s.validate tx limits keys = .error (.notCurrentlyValid conflict) := by
  have hversions : s.versionRefusal? tx = none := versionRefusal?_eq_none_iff.2 h.versions
  have hbefore : ∀ b ∈ before,
      (b.refusal? tx limits keys).map (Refusal.appendix b.kind) = none := by
    intro b hb
    refine Option.map_eq_none_iff.2 (Appendix.refusal?_eq_none_iff.2 ⟨h.before b hb, ?_⟩)
    refine Option.eq_none_iff_forall_ne_some.2 fun conflict' hconflict => ?_
    obtain ⟨_, rfl, _⟩ := Appendix.conflict?_eq_some_iff.1 hconflict
    have horder := h.toList ▸ s.pairwise_toList
    exact absurd ((List.pairwise_append.1 horder).2.2 _ hb _ List.mem_cons_self) (Nat.lt_irrefl _)
  have hrefusal : (Appendix.announcement a).refusal? tx limits keys =
      some (.notCurrentlyValid conflict) := by
    simp only [Appendix.refusal?, Appendix.violation?, Appendix.conflict?, h.rules, h.conflict,
      Option.map_some]
  have hfirst : s.appendixRefusal? tx limits keys =
      some (.appendix .announcement (.notCurrentlyValid conflict)) :=
    List.findSome?_eq_some_iff.2
      ⟨before, .announcement a, after, h.toList, by rw [hrefusal]; rfl, hbefore⟩
  simp only [validate, refusal?, hversions, hfirst, Refusal.error]

/-- What comes after the announcement is all that may yet be found to break a rule. -/
theorem keepsRules_iff (h : s.FirstConflict tx limits keys before a after conflict) :
    s.KeepsRules tx limits ↔
      ∀ b ∈ s.toList, Kind.announcement.rank < b.kind.rank → b.violation? tx limits = none := by
  constructor
  · -- all the rules are kept, so these are
    exact fun hkeeps b hb _ => hkeeps.2 b hb
  · refine fun hafter => ⟨h.versions, fun b hb => ?_⟩
    have horder := h.toList ▸ s.pairwise_toList
    rcases List.mem_append.1 (h.toList ▸ hb) with hbefore | hb'
    · -- the appendix comes before the announcement
      exact h.before b hbefore
    · rcases List.mem_cons.1 hb' with rfl | hlater
      · -- it is the announcement
        exact h.rules
      · -- it comes after it
        exact hafter b hb ((List.pairwise_cons.1 (List.pairwise_append.1 horder).2.1).1 b hlater)

end FirstConflict

theorem conflict?_keys_empty (a : Announcement) : a.conflict? tx Ledger.empty.keys = none := by
  unfold Announcement.conflict?
  split <;> rfl

/-! ### What the class of a refusal says -/

/-- A refusal that may be tried again is the conflict of the announcement with the ledger, and is
    all that the ledger has to do with it: without the conflict the set is admitted, or refused for
    good. It is admitted just if nothing after the announcement breaks a rule. -/
theorem validate_retryable {e : AppendixError} (h : s.validate tx limits keys = .error e)
    (hretryable : e.isRetryable = true) :
    ∃ a conflict, s.announcement = some a ∧ a.conflict? tx keys = some conflict ∧
      e = .notCurrentlyValid conflict ∧
      ((∃ ledger : Ledger, s.validate tx limits ledger.keys = .ok ()) ↔
        ∀ b ∈ s.toList, Kind.announcement.rank < b.kind.rank → b.violation? tx limits = none) ∧
      ∀ keys' e', a.conflict? tx keys' = none → s.validate tx limits keys' = .error e' →
        e'.errorClass = .notValid := by
  rcases of_validate_eq_error h with ⟨v, rfl, -⟩ | ⟨before, a, after, conflict, rfl, hfirst⟩
  · -- a broken rule is not to be tried again
    cases hretryable
  · refine ⟨a, conflict, hfirst.announcement, hfirst.conflict, rfl, ?_, fun keys' e' hnone h' => ?_⟩
    · -- with no conflict the set is admitted just if the rest keeps to the rules
      rw [← hfirst.keepsRules_iff]
      constructor
      · rintro ⟨ledger, hok⟩
        exact keepsRules_of_validate hok
      · intro hkeeps
        exact ⟨.empty, validate_of_keepsRules hkeeps fun b _ => conflict?_keys_empty b⟩
    · -- without the conflict only a rule is left to be broken
      rcases of_validate_eq_error h' with ⟨v, rfl, -⟩ | ⟨_, a', _, conflict', rfl, hfirst'⟩
      · rfl
      · -- the announcement is the same, and so is its conflict
        have hsame : some a = some a' := hfirst.announcement.symm.trans hfirst'.announcement
        cases hsame
        rw [hfirst'.conflict] at hnone
        cases hnone

/-- A key, and another one. -/
def announcedKey : PublicKey := ⟨List.replicate 32 9, by decide⟩

def rivalKey : PublicKey := ⟨List.replicate 32 34, by decide⟩

/-- A payment to the account that the first key belongs to. -/
def paymentToKey : Transaction :=
  ⟨7, 1, .ordinaryPayment, 1, some (accountId announcedKey.bytes), 10, 100⟩

/-- A ledger where that account has the other key. -/
def rivalLedger : Ledger := (Ledger.empty.bindKey (accountId announcedKey.bytes) rivalKey 10).2

/-- The announcement of the key, in front of a poll. -/
def announcedWith (weighting : Weighting) : AppendixSet :=
  { empty with
    announcement := some (.ofKey announcedKey)
    phasing := some ⟨1, 200, 1, 1, weighting, []⟩ }

theorem firstConflict_announcedWith (weighting : Weighting) :
    (announcedWith weighting).FirstConflict paymentToKey .standard rivalLedger.keys []
      (.ofKey announcedKey) [.phasing ⟨1, 200, 1, 1, weighting, []⟩] .differentKey where
  toList := rfl
  conflict := by decide +kernel
  versions := List.forall_mem_cons.2 ⟨rfl, List.forall_mem_singleton.2 rfl⟩
  rules := by decide +kernel
  before := by decide

theorem validate_retryable_rebound :
    ((announcedWith .account).validate paymentToKey .standard rivalLedger.keys =
        .error (.notCurrentlyValid .differentKey)) ∧
      ∃ ledger : Ledger, (announcedWith .account).validate paymentToKey .standard ledger.keys =
        .ok () := by
  have hrefused := (firstConflict_announcedWith .account).validate_eq
  obtain ⟨_, _, _, _, _, hiff, _⟩ := validate_retryable hrefused rfl
  exact ⟨hrefused, hiff.2 (by decide +kernel)⟩

/-- The conflict is reported, but the poll behind it breaks a rule, whatever the ledger says. -/
theorem validate_retryable_forever :
    ((announcedWith (.asset 0)).validate paymentToKey .standard rivalLedger.keys =
        .error (.notCurrentlyValid .differentKey)) ∧
      (AppendixError.notCurrentlyValid .differentKey).isRetryable = true ∧
      ∀ keys, (announcedWith (.asset 0)).validate paymentToKey .standard keys ≠ .ok () := by
  refine ⟨(firstConflict_announcedWith (.asset 0)).validate_eq, rfl, fun keys hok => ?_⟩
  have hkept : ∀ b ∈ (announcedWith (.asset 0)).toList,
      b.violation? paymentToKey .standard = none := (keepsRules_of_validate hok).2
  revert hkept
  decide +kernel

/-- A rule that is broken is broken for good, whatever ledger is asked and whether it answers. All
    else that a set is refused for is the conflict of its announcement. What is refused as bytes or
    as an object is malformed, and nothing else is. -/
theorem validate_refusals (s : AppendixSet) (tx : Transaction) (limits : Limits) :
    (∀ keys e, s.validate tx limits keys = .error e →
      (e.errorClass = .notValid ∧ ∀ keys', ∃ e', s.validate tx limits keys' = .error e') ∨
      (e.errorClass = .notCurrentlyValid ∧ ∃ a conflict, s.announcement = some a ∧
        a.conflict? tx keys = some conflict ∧ e = .notCurrentlyValid conflict)) ∧
    (∀ flags data version limits e, decode flags data version limits = .error e →
      e.errorClass = .malformed) ∧
    (∀ flags version limits c e c', decodeFrom flags version limits c = .error e c' →
      e.errorClass = .malformed) ∧
    ∀ o e, ofObject o = .error e → e.errorClass = .malformed := by
  refine ⟨fun keys e h => ?_, fun _ _ _ _ _ h => errorClass_of_decode _ _ h,
    fun _ _ _ => refusesMalformed_decodeFrom _ _ _, fun o e h => ?_⟩
  · -- admission
    rcases of_validate_eq_error h with ⟨v, rfl, hbroken⟩ | ⟨_, a, _, conflict, rfl, hfirst⟩
    · refine .inl ⟨rfl, fun keys' => ?_⟩
      cases hvalidate : s.validate tx limits keys' with
      | error e' => exact ⟨e', rfl⟩
      | ok u => exact absurd (keepsRules_of_validate hvalidate) hbroken
    · exact .inr ⟨rfl, a, conflict, hfirst.announcement, hfirst.conflict, rfl⟩
  · -- objects
    obtain ⟨field, fault, rfl⟩ := blamesField_ofObject o e h
    rfl

/-- A poll weighted by no asset. -/
def assetlessPoll : AppendixSet :=
  { empty with phasing := some ⟨1, 200, 1, 1, .asset 0, []⟩ }

theorem validate_refusals_assetlessPoll :
    assetlessPoll.validate paymentToKey .standard rivalLedger.keys =
        .error (.notValid .assetMissing) ∧
      ∀ keys, ∃ e, assetlessPoll.validate paymentToKey .standard keys = .error e := by
  have hrefused : assetlessPoll.validate paymentToKey .standard rivalLedger.keys =
      .error (.notValid .assetMissing) := rfl
  obtain ⟨hclasses, -⟩ := validate_refusals assetlessPoll paymentToKey .standard
  rcases hclasses _ _ hrefused with ⟨-, hforGood⟩ | ⟨hclass, -⟩
  · exact ⟨hrefused, hforGood⟩
  · cases hclass

end AppendixSet

end LedgerAppendix
