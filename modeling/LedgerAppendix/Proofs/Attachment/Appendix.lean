import LedgerAppendix.Proofs.Attachment.Grammar
import LedgerAppendix.Proofs.Text.Utf8

/-!
# Appendices are read back from their fields

An object that has the fields of an appendix gives the appendix back, whatever other fields it has.
One thing may be lost: the bytes of a text that is no UTF-8 are shown as another text, and come back
as the bytes of that one. `shown` is the appendix with these bytes.

Only the version may stand in the object without having been written there, since version 0 writes
none. So fields that an appendix was written into give it just if the version that they give is its
own (`givenBy_shown_iff`).
-/

namespace LedgerAppendix

open Json (Object)
open Json.Object

/-- The message that an attachment shows in place of this one. -/
def Message.shown (m : Message) : Message :=
  if m.isText then { m with payload := Utf8.encode (Utf8.lossy m.payload) } else m

/-- A message that is no text that is not UTF-8 is shown as it is. -/
theorem Message.shown_of_text {m : Message} (h : m.isText → m.text?.isSome) : m.shown = m := by
  obtain ⟨version, payload, isText⟩ := m
  cases isText with
  | false => rfl
  | true =>
    obtain ⟨text, htext⟩ := Option.isSome_iff_exists.1 (h rfl)
    have hpayload : Utf8.encode (Utf8.lossy payload) = payload := by
      rw [Utf8.lossy_of_decode? htext, Utf8.encode_of_decode? htext]
    show (⟨version, Utf8.encode (Utf8.lossy payload), true⟩ : Message) = _
    rw [hpayload]

namespace Appendix

/-- The appendix that an attachment shows in place of this one. -/
def shown : Appendix → Appendix
  | .message m => .message m.shown
  | a => a

/-- The object has the fields that the appendix is written into. -/
def WrittenIn (a : Appendix) (o : Object) : Prop :=
  ∀ key value, a.toObject.get? key = some value → o.get? key = some value

/-- The object has the fields of the appendix, and none of its kind besides. -/
def StandsIn (a : Appendix) (o : Object) : Prop :=
  ∀ key ∈ a.kind.fields, o.get? key = a.toObject.get? key

theorem StandsIn.writtenIn {a : Appendix} {o : Object} (h : a.StandsIn o) : a.WrittenIn o := by
  intro key value hvalue
  by_cases hkey : key ∈ a.kind.fields
  · rw [h key hkey, hvalue]
  · rw [get?_toObject_of_not_mem hkey] at hvalue
    cases hvalue

theorem kind_shown (a : Appendix) : a.shown.kind = a.kind := by
  cases a <;> rfl

/-- The version is all that an appendix puts into its field for one. -/
theorem get?_put_version (a : Appendix) (o : Object) :
    (a.put o).get? (Version.field a.kind.name) =
      (Version.put a.version a.kind.name o).get? (Version.field a.kind.name) := by
  cases a with
  | message m =>
    simp [put, Message.put, get?_insert, Kind.marker, Version.field, kind, Kind.name, version]
  | encryptedMessage m =>
    simp [put, SealedMessage.put, get?_insert, Kind.marker, Version.field, kind, Kind.name, version]
  | announcement a =>
    simp [put, Announcement.put, get?_insert, Kind.marker, Version.field, kind, Kind.name, version]
  | encryptToSelf m =>
    simp [put, SealedMessage.put, get?_insert, Kind.marker, Version.field, kind, Kind.name, version]
  | phasing p =>
    simp [put, Phasing.put, get?_insert, Weighting.get?_put_of_ne, Kind.marker, Version.field, kind,
      Kind.name, version]

end Appendix

/-! ### Each form -/

section Forms

variable {o : Object}

theorem Message.givenBy_shown {m : Message} (h : (Appendix.message m).WrittenIn o)
    (hversion : Version.GivenBy m.version Kind.message.name o) : m.shown.GivenBy o := by
  have hmarker : o.get? Kind.message.marker = some (.string m.payloadText) := by
    apply h
    simp [Appendix.toObject, Appendix.put, put, get?_insert, Kind.marker]
  have hflag : o.get? "messageIsText" = some (.bool m.isText) := by
    apply h
    simp [Appendix.toObject, Appendix.put, put, get?_insert]
  obtain ⟨version, payload, isText⟩ := m
  cases isText with
  | true => exact ⟨hversion, iff_of_true rfl hflag, _, hmarker, rfl⟩
  | false =>
    have hbool : o.get? "messageIsText" ≠ some (.bool true) := by
      rw [hflag]
      exact nofun
    exact ⟨hversion, iff_of_false Bool.false_ne_true hbool, _, hmarker, Hex.spells_encode payload⟩

theorem SealedMessage.givenBy_of_get? {m : SealedMessage} {kind : Kind}
    (hversion : Version.GivenBy m.version kind.name o)
    (hmarker : o.get? kind.marker = some (.object m.body)) : m.GivenBy kind o := by
  have hdata : m.body.get? "data" = some (.string (Hex.encode m.ciphertext)) := by
    simp [body, Object.ofFields, get?_insert]
  have hnonce : m.body.get? "nonce" = some (.string (Hex.encode m.nonce)) := by
    simp [body, Object.ofFields, get?_insert]
  have htext : m.body.get? "isText" = some (.bool m.isText) := by
    simp [body, Object.ofFields, get?_insert]
  exact ⟨hversion, m.body, hmarker, ⟨_, hdata, Hex.spells_encode _⟩,
    ⟨_, hnonce, Hex.spells_encode _⟩, by simp [htext]⟩

theorem Announcement.givenBy_of_writtenIn {a : Announcement}
    (h : (Appendix.announcement a).WrittenIn o)
    (hversion : Version.GivenBy a.version Kind.announcement.name o) : a.GivenBy o := by
  have hmarker : o.get? Kind.announcement.marker = some (.string (Hex.encode a.key)) := by
    apply h
    simp [Appendix.toObject, Appendix.put, put, get?_insert]
  exact ⟨hversion, _, hmarker, Hex.spells_encode a.key⟩

theorem Phasing.givenBy_of_writtenIn {p : Phasing} (h : (Appendix.phasing p).WrittenIn o)
    (hversion : Version.GivenBy p.version Kind.phasing.name o) : p.GivenBy o where
  version := hversion
  maxHeight := by
    apply h
    simp [Appendix.toObject, Appendix.put, put, get?_insert, Weighting.get?_put_of_ne, Kind.marker]
  quorum := by
    apply h
    simp [Appendix.toObject, Appendix.put, put, get?_insert, Weighting.get?_put_of_ne]
  threshold := by
    apply h
    simp [Appendix.toObject, Appendix.put, put, get?_insert, Weighting.get?_put_of_ne]
  weighting := by
    have hmodel : o.get? "votingModel" = some (.ofWord p.weighting.model.code.toUInt64) := by
      apply h
      cases hw : p.weighting <;>
        simp [Appendix.toObject, Appendix.put, put, get?_insert, Weighting.put, hw]
    refine ⟨hmodel, ?_⟩
    cases hw : p.weighting with
    | balance => rfl
    | account => rfl
    | asset id =>
      apply h
      simp [Appendix.toObject, Appendix.put, put, get?_insert, Weighting.put, hw,
        Weighting.assetId]
  voters := by
    apply h
    simp [Appendix.toObject, Appendix.put, put, get?_insert]

end Forms

/-! ### Any kind -/

namespace Appendix

variable {a : Appendix} {o : Object}

/-- Fields that give an appendix give its version. -/
theorem GivenBy.version (h : a.GivenBy o) : Version.GivenBy a.version a.kind.name o := by
  cases a with
  | message m => exact Message.GivenBy.version h
  | encryptedMessage m => exact SealedMessage.GivenBy.version h
  | announcement a => exact Announcement.GivenBy.version h
  | encryptToSelf m => exact SealedMessage.GivenBy.version h
  | phasing p => exact Phasing.GivenBy.version h

theorem version_shown (a : Appendix) : a.shown.version = a.version := by
  cases a with
  | message m =>
    show m.shown.version = m.version
    unfold Message.shown
    split <;> rfl
  | encryptedMessage | announcement | encryptToSelf | phasing => rfl

/-- Fields that an appendix was written into give what is shown of it just if they give its
    version. -/
theorem givenBy_shown_iff (h : a.WrittenIn o) :
    a.shown.GivenBy o ↔ Version.GivenBy a.version a.kind.name o := by
  constructor
  · intro hgiven
    have hversion := hgiven.version
    rwa [version_shown, kind_shown] at hversion
  · intro hversion
    cases a with
    | message m => exact Message.givenBy_shown h hversion
    | encryptedMessage m =>
      refine SealedMessage.givenBy_of_get? hversion (h _ _ ?_)
      simp [toObject, put, SealedMessage.put, get?_insert]
    | announcement a => exact Announcement.givenBy_of_writtenIn h hversion
    | encryptToSelf m =>
      refine SealedMessage.givenBy_of_get? hversion (h _ _ ?_)
      simp [toObject, put, SealedMessage.put, get?_insert]
    | phasing p => exact Phasing.givenBy_of_writtenIn h hversion

theorem ofObject?_of_standsIn (h : a.StandsIn o) : ofObject? a.kind o = .ok (some a.shown) := by
  have hversion : Version.GivenBy a.version a.kind.name o := by
    apply Version.givenBy_of_get?
    rw [h _ List.mem_cons_self]
    exact a.get?_put_version []
  exact ofObject?_eq_ok_some_iff.2 ⟨a.kind_shown, (givenBy_shown_iff h.writtenIn).2 hversion⟩

end Appendix

end LedgerAppendix
