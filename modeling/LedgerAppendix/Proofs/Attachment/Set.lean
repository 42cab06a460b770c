import LedgerAppendix.Attachment
import LedgerAppendix.Proofs.Appendix.Set
import LedgerAppendix.Proofs.Attachment.Appendix
import Mathlib.Data.List.Nodup

/-!
# Attachments are read back

What an object gives after appendices were put into it: all appendices of a set into an empty
object, or one appendix into an object that holds anything.
-/

namespace LedgerAppendix

/-!
## Sets are read back from their objects

In the one object of a set, each appendix still stands as it does in an object of its own, since no
other appendix of the set has fields of its kind. So the set that is read back has an appendix of
the same kinds, each one as the attachment shows it (`ofObject_toObject`).
-/

namespace AppendixSet

open Json (Object)
open Json.Object

/-! ### The object of a set -/

/-- A field of a kind has the value that the last appendix of the kind gives it. -/
theorem get?_foldl_put {as : List Appendix} (hnodup : (as.map Appendix.kind).Nodup) {k : Kind}
    {key : String} (hkey : key ∈ k.fields) (o : Object) :
    (as.foldl (fun o a => a.put o) o).get? key =
      ((lastOf as k).bind fun a => a.toObject.get? key).or (o.get? key) := by
  induction as generalizing o with
  | nil => simp [lastOf]
  | cons a as ih =>
    obtain ⟨hnew, hnodup⟩ := List.nodup_cons.1 hnodup
    have hput : (a.put o).get? key = (a.toObject.get? key).or (o.get? key) :=
      a.overlays_put o key
    rw [List.foldl_cons, ih hnodup, hput, lastOf_cons]
    by_cases ha : a.kind = k
    · have hlater : lastOf as k = none := lastOf_eq_none_iff.2 (ha ▸ hnew)
      simp [hlater, ha]
    · have hother : a.toObject.get? key = none :=
        Appendix.get?_toObject_of_not_mem fun h => ha (Kind.eq_of_mem_fields h hkey)
      simp [ha, hother]

theorem lastOf_toList (s : AppendixSet) (k : Kind) : lastOf s.toList k = s.get? k := by
  rw [← get?_ofList, ofList_toList]

theorem nodup_map_kind_toList (s : AppendixSet) : (s.toList.map Appendix.kind).Nodup := by
  rw [map_kind_toList]
  apply List.Nodup.filter
  decide

/-- In the object of a set, the fields of a kind are those of the appendix of that kind. -/
theorem get?_toObject (s : AppendixSet) {k : Kind} {key : String} (hkey : key ∈ k.fields) :
    s.toObject.get? key = (s.get? k).bind fun a => a.toObject.get? key := by
  rw [toObject, get?_foldl_put s.nodup_map_kind_toList hkey, lastOf_toList]
  exact Option.or_none

theorem standsIn_toObject {s : AppendixSet} {a : Appendix} (h : s.get? a.kind = some a) :
    a.StandsIn s.toObject := by
  intro key hkey
  rw [get?_toObject s hkey, h]
  rfl

/-! ### Reading it back -/

/-- The set that an attachment shows in place of this one. -/
def shown (s : AppendixSet) : AppendixSet := { s with message := s.message.map Message.shown }

/-- Nothing is lost of a set whose text is UTF-8. -/
theorem shown_of_text {s : AppendixSet} (h : ∀ m, s.message = some m → m.isText → m.text?.isSome) :
    s.shown = s := by
  obtain ⟨message, encryptedMessage, announcement, encryptToSelf, phasing⟩ := s
  cases message with
  | none => rfl
  | some m => simp [shown, Message.shown_of_text (h m rfl)]

theorem get?_shown (s : AppendixSet) (k : Kind) :
    s.shown.get? k = (s.get? k).map Appendix.shown := by
  cases k <;> simp [shown, get?, Appendix.shown, Function.comp_def]

theorem ofObject?_toObject (s : AppendixSet) (k : Kind) :
    Appendix.ofObject? k s.toObject = .ok (s.shown.get? k) := by
  rw [get?_shown]
  cases hk : s.get? k with
  | none =>
    refine Appendix.ofObject?_of_lacks (.inl ?_)
    rw [get?_toObject s (k := k) (by simp [Kind.fields]), hk]
    rfl
  | some a =>
    obtain rfl := kind_of_get? hk
    exact Appendix.ofObject?_of_standsIn (standsIn_toObject hk)

/-- The object of a set gives back the set that it shows. -/
theorem ofObject_toObject (s : AppendixSet) : ofObject s.toObject = .ok s.shown :=
  ofObject_eq_ok_iff.2 s.ofObject?_toObject

end AppendixSet

/-!
## What an attachment loses

Nothing of a set is lost in its object but the bytes of a text that is not UTF-8, and these are lost
once only: the text that is shown in their place is shown as it is. A text that was read from an
object has the bytes of a string, so a set that comes from an object loses nothing.
-/

open Json (Object)

/-! ### Texts -/

/-- A message is shown as it is just if it is no text that is not UTF-8. -/
theorem Message.shown_eq_iff {m : Message} :
    m.shown = m ↔ (m.isText → (Utf8.decode? m.payload).isSome) := by
  constructor
  · intro h htext
    obtain ⟨version, payload, isText⟩ := m
    obtain rfl : isText = true := htext
    have hpayload : Utf8.encode (Utf8.lossy payload) = payload := congrArg Message.payload h
    exact Utf8.isSome_decode?_iff.2 ⟨_, hpayload⟩
  · intro h
    refine shown_of_text fun htext => ?_
    rw [text?, if_pos htext]
    exact h htext

/-- A text that some fields give is UTF-8. -/
theorem Message.isSome_text?_of_givenBy {o : Object} {m : Message} (h : m.GivenBy o)
    (htext : m.isText) : m.text?.isSome := by
  obtain ⟨text, -, hpayload⟩ := h.payload
  rw [if_pos htext] at hpayload
  rw [text?, if_pos htext, hpayload, Utf8.decode?_encode]
  rfl

/-- A message has the same fields as the one that is shown in its place. -/
theorem Message.put_shown (m : Message) (o : Object) : m.shown.put o = m.put o := by
  obtain ⟨version, payload, isText⟩ := m
  cases isText with
  | false => rfl
  | true =>
    have hlossy : Utf8.lossy (Utf8.encode (Utf8.lossy payload)) = Utf8.lossy payload :=
      Utf8.lossy_encode _
    simp only [shown, put, payloadText, if_true, hlossy]

/-! ### Appendices -/

namespace Appendix

theorem put_shown (a : Appendix) (o : Object) : a.shown.put o = a.put o := by
  cases a with
  | message m => exact m.put_shown o
  | encryptedMessage | announcement | encryptToSelf | phasing => rfl

/-- An appendix that some fields give is shown as it is. -/
theorem shown_of_givenBy {o : Object} {a : Appendix} (h : a.GivenBy o) : a.shown = a := by
  cases a with
  | message m =>
    exact congrArg message (Message.shown_of_text (Message.isSome_text?_of_givenBy h))
  | encryptedMessage | announcement | encryptToSelf | phasing => rfl

end Appendix

/-! ### Sets -/

namespace AppendixSet

theorem toList_shown (s : AppendixSet) : s.shown.toList = s.toList.map Appendix.shown := by
  unfold toList
  rw [List.map_filterMap]
  exact congrArg (Kind.all.filterMap ·) (funext s.get?_shown)

/-- A set has the same object as the one that is shown in its place. -/
theorem toObject_shown (s : AppendixSet) : s.shown.toObject = s.toObject := by
  unfold toObject
  rw [toList_shown, List.foldl_map]
  simp only [Appendix.put_shown]

/-- A set that an object holds is shown as it is. -/
theorem shown_of_ofObject {o : Object} {s : AppendixSet} (h : ofObject o = .ok s) :
    s.shown = s := by
  refine ext_get? fun k => ?_
  rw [get?_shown]
  cases hk : s.get? k with
  | none => rfl
  | some a =>
    have hfound := ofObject_eq_ok_iff.1 h k
    rw [hk] at hfound
    rw [Option.map_some, Appendix.shown_of_givenBy (Appendix.ofObject?_eq_ok_some_iff.1 hfound).2]

/-- A set is shown as it is just if it has no text that is not UTF-8. -/
theorem shown_eq_iff {s : AppendixSet} :
    s.shown = s ↔ ∀ m, s.message = some m → m.isText → (Utf8.decode? m.payload).isSome := by
  constructor
  · intro h m hm
    have hmessage : s.message.map Message.shown = s.message := congrArg AppendixSet.message h
    rw [hm] at hmessage
    exact Message.shown_eq_iff.1 (Option.some.inj hmessage)
  · intro h
    refine shown_of_text fun m hm htext => ?_
    rw [Message.text?, if_pos htext]
    exact h m hm htext

/-- The object of any set is read back as the set, with the bytes of the text that is shown in place
    of a text. This is the set itself just if it has no text that is not UTF-8. What is read back
    has the same object again, and a set that any object holds is read back as it is. -/
theorem ofObject_toObject_exact (s : AppendixSet) :
    ofObject s.toObject = .ok { s with message := s.message.map fun m =>
      if m.isText then { m with payload := Utf8.encode (Utf8.lossy m.payload) } else m } ∧
    (ofObject s.toObject = .ok s ↔
      ∀ m, s.message = some m → m.isText → (Utf8.decode? m.payload).isSome) ∧
    (ofObject s.toObject).map toObject = .ok s.toObject ∧
    ∀ o t, ofObject o = .ok t → ofObject t.toObject = .ok t := by
  refine ⟨ofObject_toObject s, ?_, ?_, ?_⟩
  · rw [ofObject_toObject, Except.ok.injEq, shown_eq_iff]
  · rw [ofObject_toObject, Except.map, toObject_shown]
  · intro o t h
    rw [ofObject_toObject, shown_of_ofObject h]

/-- A text that breaks off inside a character, next to a poll of an asset. -/
def brokenText : AppendixSet :=
  { empty with
    message := some ⟨1, [104, 195], true⟩
    phasing := some ⟨0, 200, 3, 1, .asset 77, [11, 12]⟩ }

/-- The piece of a character is read back as the replacement character, and that one stays. -/
theorem ofObject_toObject_exact_brokenText :
    ofObject brokenText.toObject ≠ .ok brokenText ∧
      ∃ t, ofObject brokenText.toObject = .ok t ∧
        t.message = some ⟨1, [104, 239, 191, 189], true⟩ ∧ ofObject t.toObject = .ok t := by
  obtain ⟨hread, hlossless, -, hagain⟩ := ofObject_toObject_exact brokenText
  refine ⟨fun hsame => ?_, _, hread, by decide +kernel, hagain _ _ hread⟩
  have htext := hlossless.1 hsame ⟨1, [104, 195], true⟩ rfl rfl
  exact absurd htext (by decide +kernel)

end AppendixSet

/-!
## Writing into an object that holds something already

An object that an appendix is put into may hold anything: other appendices, fields of another type,
what is left of an earlier appendix of the same kind. No other kind is read differently afterwards,
and the appendix itself is read back with two exceptions (`put_shared`). A text that is not UTF-8 is
shown as another one; and an appendix of version 0 is read back with the version that was left in
the object, because it writes none over it.
-/

open Json (Object)
open Json.Object

/-! ### What is left of a version -/

namespace Version

variable {version : UInt8} {name : String} {o : Object}

/-- A version is given after it was put in, unless it is 0 and another one was there. -/
theorem givenBy_put_iff : GivenBy version name (put version name o) ↔ 0 < version ∨
    ∀ value, o.get? (field name) = some value → value = .null ∨ value = .ofWord 0 := by
  by_cases hversion : 0 < version
  · refine iff_of_true (.inr ?_) (.inl hversion)
    rw [put, if_pos hversion, get?_insert, if_pos rfl]
  · obtain rfl : version = 0 := by simpa using hversion
    rw [put, if_neg hversion, GivenBy, Lacks]
    cases o.get? (field name) with
    | none => simp
    | some value => simp [Json.ofWord]

end Version

namespace Appendix

theorem writtenIn_put (a : Appendix) (o : Object) : a.WrittenIn (a.put o) := by
  intro key value hvalue
  have hput : (a.put o).get? key = (a.toObject.get? key).or (o.get? key) := a.overlays_put o key
  rw [hput, hvalue, Option.some_or]

/-- An appendix is shown as it is just if it is no text that is not UTF-8. -/
theorem shown_eq_iff {a : Appendix} :
    a.shown = a ↔ ∀ m, a = .message m → m.isText → ∃ text, Utf8.encode text = m.payload := by
  cases a with
  | message m => simp [shown, Message.shown_eq_iff, Utf8.isSome_decode?_iff]
  | encryptedMessage | announcement | encryptToSelf | phasing =>
    exact iff_of_true rfl fun _ h => by cases h

theorem givenBy_put_iff {a : Appendix} {o : Object} :
    a.GivenBy (a.put o) ↔ Version.GivenBy a.version a.kind.name (a.put o) ∧ a.shown = a := by
  constructor
  · intro h
    exact ⟨h.version, shown_of_givenBy h⟩
  · rintro ⟨hversion, hshown⟩
    have hgiven := (givenBy_shown_iff (a.writtenIn_put o)).2 hversion
    rwa [hshown] at hgiven

/-- An appendix does not touch what any other kind is read from. -/
theorem ofObject?_put_of_ne {a : Appendix} {k : Kind} (o : Object) (hk : k ≠ a.kind) :
    ofObject? k (a.put o) = ofObject? k o := by
  refine ofObject?_congr fun key hkey => get?_put_of_not_mem o fun hwrites => hk ?_
  have hfields : key ∈ k.fields := by
    rcases hkey with rfl | ⟨-, hfields, -⟩
    · exact List.mem_cons_of_mem _ List.mem_cons_self
    · exact hfields
  exact Kind.eq_of_mem_fields hfields (mem_fields_of_mem_writes hwrites)

/-- Putting an appendix into any object leaves what is read of the other kinds, also a refusal, and
    every field that it is not written into. The appendix is read back just if its version is
    written or the object says nothing else about it, and its bytes are UTF-8 if they are text. -/
theorem put_shared (a : Appendix) (o : Object) :
    (∀ k ≠ a.kind, ofObject? k (a.put o) = ofObject? k o) ∧
    (∀ key ∉ a.writes, (a.put o).get? key = o.get? key) ∧
    (ofObject? a.kind (a.put o) = .ok (some a) ↔
      (0 < a.version ∨ ∀ value, o.get? (Version.field a.kind.name) = some value →
        value = .null ∨ value = .ofWord 0) ∧
      ∀ m, a = .message m → m.isText → ∃ text, Utf8.encode text = m.payload) := by
  have hversion : Version.GivenBy a.version a.kind.name (a.put o) ↔
      Version.GivenBy a.version a.kind.name (Version.put a.version a.kind.name o) := by
    simp only [Version.GivenBy, Lacks, get?_put_version]
  refine ⟨fun k hk => ofObject?_put_of_ne o hk, fun key hkey => get?_put_of_not_mem o hkey, ?_⟩
  rw [ofObject?_eq_ok_some_iff, givenBy_put_iff, hversion, Version.givenBy_put_iff, shown_eq_iff]
  exact and_iff_right rfl

/-- What is left of an earlier poll, next to a message that cannot be read. -/
def leftover : Object :=
  [("assetId", .ofWord 9), ("message", .ofWord 1), ("version.TwoPhased", .ofWord 3)]

/-- A poll of version 0 comes back with the version of the earlier one, any other as it is. The
    asset stays where it is, and so does the message. -/
theorem put_shared_leftover :
    ofObject? .phasing ((Appendix.phasing ⟨0, 90, 2, 0, .account, [3]⟩).put leftover) ≠
        .ok (some (.phasing ⟨0, 90, 2, 0, .account, [3]⟩)) ∧
      ofObject? .phasing ((Appendix.phasing ⟨2, 90, 2, 0, .account, [3]⟩).put leftover) =
        .ok (some (.phasing ⟨2, 90, 2, 0, .account, [3]⟩)) ∧
      ((Appendix.phasing ⟨2, 90, 2, 0, .account, [3]⟩).put leftover).get? "assetId" =
        some (.ofWord 9) ∧
      ofObject? .message ((Appendix.phasing ⟨2, 90, 2, 0, .account, [3]⟩).put leftover) =
        ofObject? .message leftover := by
  obtain ⟨-, -, hlegacy⟩ := put_shared (.phasing ⟨0, 90, 2, 0, .account, [3]⟩) leftover
  obtain ⟨hothers, hfields, hread⟩ := put_shared (.phasing ⟨2, 90, 2, 0, .account, [3]⟩) leftover
  refine ⟨fun h => ?_, hread.2 ⟨.inl (by decide), nofun⟩, hfields "assetId" (by decide),
    hothers .message (by decide)⟩
  rcases (hlegacy.1 h).1 with hversion | hversion
  · exact absurd hversion (by decide)
  · rcases hversion (.ofWord 3) rfl with hnull | hzero
    · cases hnull
    · cases hzero

end Appendix

end LedgerAppendix
