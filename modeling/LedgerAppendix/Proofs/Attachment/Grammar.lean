import LedgerAppendix.Proofs.Appendix.Set
import LedgerAppendix.Proofs.Attachment.Forms
import LedgerAppendix.Proofs.Attachment.Refusals

/-!
# Which objects are attachments

The readings of the forms, by kind: the fields of a kind are well formed, or they give an appendix
of the kind. The marker says whether the kind is there at all.

`AppendixSet.ofObject_grammar` puts the five kinds together: an object is read just if the fields of
each kind that is marked in it are well formed, and nothing else in it matters.
-/

namespace LedgerAppendix

open Json (Object)
open Json.Object

/-! ### Any kind -/

/-- All fields of a kind are well formed. -/
def Kind.WellFormed (kind : Kind) (o : Object) : Prop :=
  match kind with
  | .message => Message.WellFormed o
  | .encryptedMessage => SealedMessage.WellFormed .encryptedMessage o
  | .announcement => Announcement.WellFormed o
  | .encryptToSelf => SealedMessage.WellFormed .encryptToSelf o
  | .phasing => Phasing.WellFormed o

/-- A field that is looked at for a kind: the marker, and the others if that is there. An asset is
    looked for only where votes are weighed by one. -/
def Kind.Consults (kind : Kind) (o : Object) (key : String) : Prop :=
  key = kind.marker ∨
    ¬o.Lacks kind.marker ∧ key ∈ kind.fields ∧
      (key = "assetId" → o.get? "votingModel" = some (.ofWord 2))

namespace Appendix

/-- What the fields of its kind say is this appendix. -/
def GivenBy (a : Appendix) (o : Object) : Prop :=
  match a with
  | .message m => m.GivenBy o
  | .encryptedMessage m => m.GivenBy .encryptedMessage o
  | .announcement a => a.GivenBy o
  | .encryptToSelf m => m.GivenBy .encryptToSelf o
  | .phasing p => p.GivenBy o

variable {kind : Kind} {o : Object}

/-- The fields of a kind are read as the appendix that they give. -/
theorem ofFields_eq_ok_iff {a : Appendix} :
    ofFields kind o = .ok a ↔ a.kind = kind ∧ a.GivenBy o := by
  constructor
  · intro h
    cases kind with
    | message =>
      obtain ⟨m, hm, rfl⟩ := of_map_eq_ok h
      exact ⟨rfl, Message.ofFields_eq_ok_iff.1 hm⟩
    | encryptedMessage =>
      obtain ⟨m, hm, rfl⟩ := of_map_eq_ok h
      exact ⟨rfl, SealedMessage.ofFields_eq_ok_iff.1 hm⟩
    | announcement =>
      obtain ⟨a, ha, rfl⟩ := of_map_eq_ok h
      exact ⟨rfl, Announcement.ofFields_eq_ok_iff.1 ha⟩
    | encryptToSelf =>
      obtain ⟨m, hm, rfl⟩ := of_map_eq_ok h
      exact ⟨rfl, SealedMessage.ofFields_eq_ok_iff.1 hm⟩
    | phasing =>
      obtain ⟨p, hp, rfl⟩ := of_map_eq_ok h
      exact ⟨rfl, Phasing.ofFields_eq_ok_iff.1 hp⟩
  · rintro ⟨rfl, h⟩
    cases a with
    | message m => exact congrArg (Except.map _) (Message.ofFields_eq_ok_iff.2 h)
    | encryptedMessage m => exact congrArg (Except.map _) (SealedMessage.ofFields_eq_ok_iff.2 h)
    | announcement a => exact congrArg (Except.map _) (Announcement.ofFields_eq_ok_iff.2 h)
    | encryptToSelf m => exact congrArg (Except.map _) (SealedMessage.ofFields_eq_ok_iff.2 h)
    | phasing p => exact congrArg (Except.map _) (Phasing.ofFields_eq_ok_iff.2 h)

/-- The fields that give an appendix mark it. -/
theorem GivenBy.not_lacks {a : Appendix} (h : a.GivenBy o) : ¬o.Lacks a.kind.marker := by
  have hmarker : ∃ value, o.get? a.kind.marker = some value ∧ value ≠ .null := by
    cases a with
    | message m => obtain ⟨text, htext, -⟩ := h.payload; exact ⟨_, htext, nofun⟩
    | encryptedMessage m => obtain ⟨body, hbody, -⟩ := h.body; exact ⟨_, hbody, nofun⟩
    | announcement a => obtain ⟨text, htext, -⟩ := h.key; exact ⟨_, htext, nofun⟩
    | encryptToSelf m => obtain ⟨body, hbody, -⟩ := h.body; exact ⟨_, hbody, nofun⟩
    | phasing p => exact ⟨_, h.maxHeight, nofun⟩
  obtain ⟨value, hvalue, hnull⟩ := hmarker
  rintro (hnone | hsome)
  · rw [hvalue] at hnone
    cases hnone
  · rw [hvalue] at hsome
    exact hnull (Option.some.inj hsome)

theorem ofObject?_of_lacks (h : o.Lacks kind.marker) : ofObject? kind o = .ok none := by
  rw [ofObject?, present?_eq_none_iff.2 h]

theorem ofObject?_of_not_lacks (h : ¬o.Lacks kind.marker) :
    ofObject? kind o = some <$> ofFields kind o := by
  unfold ofObject?
  split
  · next hnone => exact absurd (present?_eq_none_iff.1 hnone) h
  · rfl

theorem ofObject?_eq_ok_none_iff : ofObject? kind o = .ok none ↔ o.Lacks kind.marker := by
  refine ⟨fun h => Classical.byContradiction fun hlacks => ?_, ofObject?_of_lacks⟩
  rw [ofObject?_of_not_lacks hlacks] at h
  obtain ⟨a, -, ha⟩ := of_map_eq_ok h
  cases ha

theorem ofObject?_eq_ok_some_iff {a : Appendix} :
    ofObject? kind o = .ok (some a) ↔ a.kind = kind ∧ a.GivenBy o := by
  by_cases hlacks : o.Lacks kind.marker
  · rw [ofObject?_of_lacks hlacks]
    constructor
    · intro h
      cases h
    · rintro ⟨rfl, h⟩
      exact absurd hlacks h.not_lacks
  · rw [ofObject?_of_not_lacks hlacks, ← ofFields_eq_ok_iff]
    cases ofFields kind o with
    | ok a' => simp
    | error e => simp

/-- What is found of a kind depends only on the fields that are looked at for it. -/
theorem ofObject?_congr {o' : Object}
    (h : ∀ key, kind.Consults o key → o'.get? key = o.get? key) :
    ofObject? kind o' = ofObject? kind o := by
  have hmarker : o'.get? kind.marker = o.get? kind.marker := h _ (.inl rfl)
  have hmarked : o'.Lacks kind.marker ↔ o.Lacks kind.marker := by rw [Lacks, Lacks, hmarker]
  by_cases hlacks : o.Lacks kind.marker
  · -- neither object has the kind
    rw [ofObject?_of_lacks hlacks, ofObject?_of_lacks (hmarked.2 hlacks)]
  · -- both have it, with the same fields
    have hfield : ∀ key ∈ kind.fields, key ≠ "assetId" → o'.get? key = o.get? key :=
      fun key hkey hne => h key (.inr ⟨hlacks, hkey, fun he => absurd he hne⟩)
    rw [ofObject?_of_not_lacks hlacks, ofObject?_of_not_lacks (mt hmarked.1 hlacks)]
    congr 1
    cases kind with
    | message =>
      have hversion := hfield (Version.field Kind.message.name) (by decide) (by decide)
      have hflag : o'.flag "messageIsText" = o.flag "messageIsText" := by
        simp only [flag, hfield "messageIsText" (by decide) (by decide)]
      simp only [ofFields, Message.ofFields, Version.ofFields, present?, string, hmarker, hversion,
        hflag]
    | encryptedMessage =>
      have hversion := hfield (Version.field Kind.encryptedMessage.name) (by decide) (by decide)
      simp only [ofFields, SealedMessage.ofFields, Version.ofFields, present?, object, hmarker,
        hversion]
    | announcement =>
      have hversion := hfield (Version.field Kind.announcement.name) (by decide) (by decide)
      simp only [ofFields, Announcement.ofFields, Version.ofFields, present?, hex, string, hmarker,
        hversion]
    | encryptToSelf =>
      have hversion := hfield (Version.field Kind.encryptToSelf.name) (by decide) (by decide)
      simp only [ofFields, SealedMessage.ofFields, Version.ofFields, present?, object, hmarker,
        hversion]
    | phasing =>
      have hversion := hfield (Version.field Kind.phasing.name) (by decide) (by decide)
      have hmodel := hfield "votingModel" (by decide) (by decide)
      have hquorum := hfield "quorum" (by decide) (by decide)
      have hthreshold := hfield "voteThreshold" (by decide) (by decide)
      have hvoters := hfield "possibleVoters" (by decide) (by decide)
      have hweighting : Weighting.ofFields o' = Weighting.ofFields o :=
        Weighting.ofFields_congr hmodel fun htwo =>
          h "assetId" (.inr ⟨hlacks, by decide, fun _ => htwo⟩)
      simp only [ofFields, Phasing.ofFields, Version.ofFields, present?, word32, word64, words,
        hmarker, hversion, hquorum, hthreshold, hvoters, hweighting]

end Appendix

theorem Kind.wellFormed_iff {kind : Kind} {o : Object} :
    kind.WellFormed o ↔ ∃ a : Appendix, a.kind = kind ∧ a.GivenBy o := by
  constructor
  · intro h
    cases kind with
    | message =>
      obtain ⟨m, hm⟩ := Message.wellFormed_iff.1 h
      exact ⟨.message m, rfl, hm⟩
    | encryptedMessage =>
      obtain ⟨m, hm⟩ := SealedMessage.wellFormed_iff.1 h
      exact ⟨.encryptedMessage m, rfl, hm⟩
    | announcement =>
      obtain ⟨a, ha⟩ := Announcement.wellFormed_iff.1 h
      exact ⟨.announcement a, rfl, ha⟩
    | encryptToSelf =>
      obtain ⟨m, hm⟩ := SealedMessage.wellFormed_iff.1 h
      exact ⟨.encryptToSelf m, rfl, hm⟩
    | phasing =>
      obtain ⟨p, hp⟩ := Phasing.wellFormed_iff.1 h
      exact ⟨.phasing p, rfl, hp⟩
  · rintro ⟨a, rfl, h⟩
    cases a with
    | message m => exact Message.wellFormed_iff.2 ⟨m, h⟩
    | encryptedMessage m => exact SealedMessage.wellFormed_iff.2 ⟨m, h⟩
    | announcement a => exact Announcement.wellFormed_iff.2 ⟨a, h⟩
    | encryptToSelf m => exact SealedMessage.wellFormed_iff.2 ⟨m, h⟩
    | phasing p => exact Phasing.wellFormed_iff.2 ⟨p, h⟩

/-! ### Sets -/

namespace AppendixSet

variable {o : Object}

theorem ofObjectKinds_of_forall {held : Kind → Option Appendix} {ks : List Kind}
    (h : ∀ k ∈ ks, Appendix.ofObject? k o = .ok (held k)) :
    ofObjectKinds o ks = .ok (ks.filterMap held) := by
  induction ks with
  | nil => rfl
  | cons k ks ih =>
    obtain ⟨hk, hks⟩ := List.forall_mem_cons.1 h
    rw [ofObjectKinds, hk, ih hks]
    cases hheld : held k with
    | none => rw [List.filterMap_cons_none hheld]; rfl
    | some a => rw [List.filterMap_cons_some hheld]; rfl

theorem exists_ofObject?_of_ofObjectKinds {ks : List Kind} {as : List Appendix}
    (h : ofObjectKinds o ks = .ok as) : ∀ k ∈ ks, ∃ found, Appendix.ofObject? k o = .ok found := by
  induction ks generalizing as with
  | nil => exact List.forall_mem_nil _
  | cons k ks ih =>
    obtain ⟨found, hfound, h⟩ := of_bind_eq_ok h
    obtain ⟨others, hothers, -⟩ := of_bind_eq_ok h
    exact List.forall_mem_cons.2 ⟨⟨found, hfound⟩, ih hothers⟩

/-- A set is read from an object just if what is found of each kind is what the set has of it. -/
theorem ofObject_eq_ok_iff {s : AppendixSet} :
    ofObject o = .ok s ↔ ∀ k, Appendix.ofObject? k o = .ok (s.get? k) := by
  constructor
  · intro h
    obtain ⟨as, has, rfl⟩ := of_map_eq_ok h
    obtain ⟨held, hheld⟩ := Classical.axiomOfChoice fun k =>
      exists_ofObject?_of_ofObjectKinds has k (Kind.mem_all k)
    obtain rfl : as = Kind.all.filterMap held :=
      Except.ok.inj (has.symm.trans (ofObjectKinds_of_forall fun k _ => hheld k))
    intro k
    rw [hheld, get?_ofList_filterMap]
    intro j a hj
    have hfound := hheld j
    rw [hj] at hfound
    exact (Appendix.ofObject?_eq_ok_some_iff.1 hfound).1
  · intro h
    unfold ofObject
    rw [ofObjectKinds_of_forall fun k _ => h k]
    exact congrArg Except.ok s.ofList_toList

theorem ofObject_congr {o' : Object}
    (h : ∀ k, Appendix.ofObject? k o' = Appendix.ofObject? k o) : ofObject o' = ofObject o := by
  have hkinds : ∀ ks, ofObjectKinds o' ks = ofObjectKinds o ks := by
    intro ks
    induction ks with
    | nil => rfl
    | cons k ks ih => simp only [ofObjectKinds, h k, ih]
  exact congrArg (Except.map ofList) (hkinds Kind.all)

theorem exists_ofObject_iff :
    (∃ s, ofObject o = .ok s) ↔ ∀ k : Kind, o.Lacks k.marker ∨ k.WellFormed o := by
  constructor
  · rintro ⟨s, hs⟩ k
    have hk := ofObject_eq_ok_iff.1 hs k
    cases hget : s.get? k with
    | none =>
      rw [hget] at hk
      exact .inl (Appendix.ofObject?_eq_ok_none_iff.1 hk)
    | some a =>
      rw [hget] at hk
      exact .inr (Kind.wellFormed_iff.2 ⟨a, Appendix.ofObject?_eq_ok_some_iff.1 hk⟩)
  · intro h
    have hfound : ∀ k, ∃ found, Appendix.ofObject? k o = .ok found := by
      intro k
      rcases h k with hlacks | hfields
      · exact ⟨none, Appendix.ofObject?_of_lacks hlacks⟩
      · obtain ⟨a, ha⟩ := Kind.wellFormed_iff.1 hfields
        exact ⟨some a, Appendix.ofObject?_eq_ok_some_iff.2 ha⟩
    obtain ⟨held, hheld⟩ := Classical.axiomOfChoice hfound
    have hkind : ∀ k a, held k = some a → a.kind = k := by
      intro k a hk
      exact (Appendix.ofObject?_eq_ok_some_iff.1 (hk ▸ hheld k)).1
    refine ⟨ofList (Kind.all.filterMap held), ofObject_eq_ok_iff.2 fun k => ?_⟩
    rw [get?_ofList_filterMap hkind, hheld]

/-- There is a set to be read from an object just if the fields of each kind that is marked are well
    formed. It has an appendix of the kinds that are marked and of no other, each the one that its
    fields give; a poll has no asset unless its model weighs votes by one. Only the fields that are
    looked at decide on the result, also on which refusal it is, and any refusal is one of a
    field. -/
theorem ofObject_grammar (o : Object) :
    ((∃ s, ofObject o = .ok s) ↔ ∀ k : Kind, o.Lacks k.marker ∨ k.WellFormed o) ∧
    (∀ s, ofObject o = .ok s ↔ ∀ k : Kind, o.Lacks k.marker ∧ s.get? k = none ∨
      ¬o.Lacks k.marker ∧ ∃ a, s.get? k = some a ∧ a.GivenBy o) ∧
    (∀ s p, ofObject o = .ok s → s.phasing = some p →
      o.get? "votingModel" ≠ some (.ofWord 2) → p.weighting.assetId = 0) ∧
    (∀ o' : Object, (∀ (k : Kind) key, k.Consults o key → o'.get? key = o.get? key) →
      ofObject o' = ofObject o) ∧
    ∀ e, ofObject o = .error e → ∃ field fault, e = .invalidJson field fault := by
  have hexact : ∀ s, ofObject o = .ok s ↔ ∀ k : Kind, o.Lacks k.marker ∧ s.get? k = none ∨
      ¬o.Lacks k.marker ∧ ∃ a, s.get? k = some a ∧ a.GivenBy o := by
    intro s
    rw [ofObject_eq_ok_iff]
    refine forall_congr' fun k => ?_
    cases hget : s.get? k with
    | none => simp [Appendix.ofObject?_eq_ok_none_iff]
    | some a =>
      obtain rfl := kind_of_get? hget
      rw [Appendix.ofObject?_eq_ok_some_iff]
      constructor
      · rintro ⟨-, h⟩
        exact .inr ⟨h.not_lacks, a, rfl, h⟩
      · rintro (⟨-, h⟩ | ⟨-, a', h, hgiven⟩)
        · cases h
        · cases h
          exact ⟨rfl, hgiven⟩
  refine ⟨exists_ofObject_iff, hexact, ?_, ?_, blamesField_ofObject o⟩
  · -- the asset of a poll
    intro s p hs hp hmodel
    have hget : s.get? .phasing = some (.phasing p) := congrArg (Option.map Appendix.phasing) hp
    rcases (hexact s).1 hs .phasing with ⟨-, hnone⟩ | ⟨-, a, ha, hgiven⟩
    · -- a set with a poll is not one read without
      rw [hget] at hnone
      cases hnone
    · rw [hget] at ha
      cases ha
      have hweighting : p.weighting.GivenBy o := hgiven.weighting
      cases hw : p.weighting with
      | balance => rfl
      | account => rfl
      | asset id =>
        rw [hw] at hweighting
        exact absurd hweighting.model hmodel
  · -- the fields that are not looked at
    exact fun o' h => ofObject_congr fun k => Appendix.ofObject?_congr (h k)

/-- A text and a poll of accounts, with an asset that the poll has no use for, and the marker of an
    announcement without one. -/
def mixedObject : Object :=
  [("assetId", .string "none"), ("maxHeight", .ofWord 90), ("message", .string "zz"),
   ("messageIsText", .bool true), ("possibleVoters", .array [.ofWord 3]), ("quorum", .ofWord 2),
   ("recipientPublicKey", .null), ("version.Message", .ofWord 4), ("voteThreshold", .ofWord 0),
   ("votingModel", .ofWord 1)]

/-- The two appendices are read, also without the asset, and without a quorum nothing is. -/
theorem ofObject_grammar_mixedObject :
    (∃ s p, ofObject mixedObject = .ok s ∧ s.message = some ⟨4, [122, 122], true⟩ ∧
      s.announcement = none ∧ s.phasing = some p ∧ p.weighting.assetId = 0 ∧
      ofObject (mixedObject.insert "assetId" .null) = .ok s) ∧
    ∃ field fault,
      ofObject (mixedObject.insert "quorum" .null) = .error (.invalidJson field fault) := by
  obtain ⟨-, -, hasset, hframe, -⟩ := ofObject_grammar mixedObject
  obtain ⟨-, -, -, -, herror⟩ := ofObject_grammar (mixedObject.insert "quorum" .null)
  have hs : ofObject mixedObject = .ok { empty with
      message := some ⟨4, [122, 122], true⟩
      phasing := some ⟨0, 90, 2, 0, .account, [3]⟩ } := by rfl
  have hmodel : mixedObject.get? "votingModel" ≠ some (.ofWord 2) := by
    intro h
    cases h
  have hsame : ofObject (mixedObject.insert "assetId" .null) = ofObject mixedObject := by
    refine hframe _ fun k key hkey => ?_
    rw [Object.get?_insert, if_neg]
    rintro rfl
    rcases hkey with hmarker | ⟨-, -, hasset⟩
    · revert hmarker
      cases k <;> decide
    · exact hmodel (hasset rfl)
  have hr : ofObject (mixedObject.insert "quorum" .null) =
      .error (.invalidJson "quorum" (.notWord .null)) := by rfl
  obtain ⟨field, fault, he⟩ := herror _ hr
  exact ⟨⟨_, _, hs, rfl, rfl, rfl, hasset _ _ hs rfl hmodel, hsame.trans hs⟩, field, fault,
    hr.trans (congrArg Except.error he)⟩

end AppendixSet

end LedgerAppendix
