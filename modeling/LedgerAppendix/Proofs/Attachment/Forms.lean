import LedgerAppendix.Proofs.Attachment.Fields
import Mathlib.Algebra.Ring.Nat

/-!
# What the fields of an appendix give

For each form of appendix there are two readings of an object, both said without its reader. The
fields are well formed (`WellFormed`), which is all that the reader asks for, and an appendix is
given by them (`GivenBy`), which is what the reader returns. The fields of a form are well formed
just if they give some appendix (`wellFormed_iff`), and what is read is what they give
(`ofFields_eq_ok_iff`).
-/

namespace LedgerAppendix

open Json (Object)
open Json.Object

/-! ### Fields that can be read -/

namespace Json.Object

/-- The field is an unsigned integer up to a bound. -/
def IsNatural (o : Object) (field : String) (most : Nat) : Prop :=
  ∃ n : UInt64, o.get? field = some (.number (.natural n)) ∧ n.toNat ≤ most

/-- The field is a text in hexadecimal. -/
def IsHex (o : Object) (field : String) : Prop :=
  ∃ text, o.get? field = some (.string text) ∧ Hex.IsText text

/-- The field is an array of unsigned integers. -/
def IsNaturals (o : Object) (field : String) : Prop :=
  ∃ items, o.get? field = some (.array items) ∧
    ∀ item ∈ items, ∃ n : UInt64, item = .number (.natural n)

variable {o : Object} {field : String}

theorem isHex_iff : o.IsHex field ↔ ∃ bs, o.HexIs field bs := by
  constructor
  · rintro ⟨text, htext, h⟩
    obtain ⟨bs, hbs⟩ := Hex.isText_iff.1 h
    exact ⟨bs, text, htext, hbs⟩
  · rintro ⟨bs, text, htext, h⟩
    exact ⟨text, htext, Hex.isText_iff.2 ⟨bs, h⟩⟩

/-- Any unsigned integer is one of 64 bits. -/
theorem isNatural_word64_iff :
    o.IsNatural field (2 ^ 64 - 1) ↔ ∃ n : UInt64, o.get? field = some (.ofWord n) := by
  constructor
  · rintro ⟨n, h, -⟩
    exact ⟨n, h⟩
  · rintro ⟨n, h⟩
    exact ⟨n, h, Nat.le_pred_of_lt n.toNat_lt⟩

theorem isNatural_word32_iff :
    o.IsNatural field (2 ^ 32 - 1) ↔ ∃ n : UInt32, o.get? field = some (.ofWord n.toUInt64) := by
  constructor
  · rintro ⟨n, h, hn⟩
    exact ⟨n.toUInt32, by rw [toUInt64_toUInt32 (Nat.lt_succ_of_le hn)]; exact h⟩
  · rintro ⟨n, h⟩
    refine ⟨n.toUInt64, h, ?_⟩
    rw [UInt32.toNat_toUInt64]
    exact Nat.le_pred_of_lt n.toNat_lt

theorem isNatural_byte_iff :
    o.IsNatural field 255 ↔ ∃ n : UInt8, o.get? field = some (.ofWord n.toUInt64) := by
  constructor
  · rintro ⟨n, h, hn⟩
    exact ⟨n.toUInt8, by rw [toUInt64_toUInt8 (Nat.lt_succ_of_le hn)]; exact h⟩
  · rintro ⟨n, h⟩
    refine ⟨n.toUInt64, h, ?_⟩
    rw [UInt8.toNat_toUInt64]
    exact Nat.le_pred_of_lt n.toNat_lt

theorem isNaturals_iff :
    o.IsNaturals field ↔ ∃ ns : List UInt64, o.get? field = some (.array (ns.map .ofWord)) := by
  constructor
  · rintro ⟨items, h, hitems⟩
    have hns : ∃ ns : List UInt64, items = ns.map .ofWord := by
      clear h
      induction items with
      | nil => exact ⟨[], rfl⟩
      | cons item rest ih =>
        obtain ⟨⟨n, rfl⟩, hrest⟩ := List.forall_mem_cons.1 hitems
        obtain ⟨ns, rfl⟩ := ih hrest
        exact ⟨n :: ns, rfl⟩
    obtain ⟨ns, rfl⟩ := hns
    exact ⟨ns, h⟩
  · rintro ⟨ns, h⟩
    refine ⟨_, h, fun item hitem => ?_⟩
    obtain ⟨n, -, rfl⟩ := List.mem_map.1 hitem
    exact ⟨n, rfl⟩

end Json.Object

/-! ### Versions -/

namespace Version

/-- The version of the appendix with a name can be read, or it has none. -/
def WellFormed (name : String) (o : Object) : Prop :=
  o.Lacks (field name) ∨ o.IsNatural (field name) 255

theorem wellFormed_iff {name : String} {o : Object} :
    WellFormed name o ↔ ∃ version, GivenBy version name o := by
  unfold WellFormed GivenBy
  rw [isNatural_byte_iff]
  constructor
  · rintro (h | ⟨version, h⟩)
    · exact ⟨0, .inl ⟨h, rfl⟩⟩
    · exact ⟨version, .inr h⟩
  · rintro ⟨version, ⟨h, -⟩ | h⟩
    · exact .inl h
    · exact .inr ⟨version, h⟩

end Version

/-! ### Messages -/

namespace Message

/-- Any text if it is said to be one, and one in hexadecimal otherwise. -/
structure WellFormed (o : Object) : Prop where
  version : Version.WellFormed Kind.message.name o
  payload : ∃ text, o.get? Kind.message.marker = some (.string text) ∧
    (o.get? "messageIsText" = some (.bool true) ∨ Hex.IsText text)

structure GivenBy (m : Message) (o : Object) : Prop where
  version : Version.GivenBy m.version Kind.message.name o
  isText : m.isText = true ↔ o.get? "messageIsText" = some (.bool true)
  payload : ∃ text, o.get? Kind.message.marker = some (.string text) ∧
    if m.isText then m.payload = Utf8.encode text else Hex.Spells text m.payload

variable {o : Object}

theorem ofFields_eq_ok_iff {m : Message} : ofFields o = .ok m ↔ m.GivenBy o := by
  constructor
  · intro h
    obtain ⟨version, hversion, h⟩ := of_bind_eq_ok h
    obtain ⟨text, htext, h⟩ := of_bind_eq_ok h
    have hversion := Version.ofFields_eq_ok_iff.1 hversion
    have htext := string_eq_ok_iff.1 htext
    cases hflag : o.flag "messageIsText" with
    | true =>
      rw [hflag] at h
      cases h
      exact ⟨hversion, iff_of_true rfl (flag_eq_true_iff.1 hflag), text, htext, rfl⟩
    | false =>
      rw [hflag] at h
      obtain ⟨bs, hbs, h⟩ := of_bind_eq_ok h
      cases h
      exact ⟨hversion, by rw [← flag_eq_true_iff, hflag], text, htext, hexText_eq_ok_iff.1 hbs⟩
  · obtain ⟨version, payload, isText⟩ := m
    rintro ⟨hversion, hisText, text, htext, hpayload⟩
    have hflag : o.flag "messageIsText" = isText :=
      Bool.eq_iff_iff.2 (flag_eq_true_iff.trans hisText.symm)
    unfold ofFields
    rw [Version.ofFields_eq_ok_iff.2 hversion, string_eq_ok_iff.2 htext, hflag]
    cases isText with
    | true =>
      obtain rfl : payload = Utf8.encode text := hpayload
      rfl
    | false =>
      show (do let bs ← hexText Kind.message.marker text
               pure (⟨version, bs, false⟩ : Message)) = _
      rw [hexText_eq_ok_iff.2 hpayload]
      rfl

theorem wellFormed_iff : WellFormed o ↔ ∃ m : Message, m.GivenBy o := by
  constructor
  · rintro ⟨hversion, text, htext, hpayload⟩
    obtain ⟨version, hversion⟩ := Version.wellFormed_iff.1 hversion
    by_cases hflag : o.get? "messageIsText" = some (.bool true)
    · exact ⟨⟨version, Utf8.encode text, true⟩, hversion, iff_of_true rfl hflag, text, htext, rfl⟩
    · obtain ⟨bs, hbs⟩ := Hex.isText_iff.1 (hpayload.resolve_left hflag)
      exact ⟨⟨version, bs, false⟩, hversion, iff_of_false Bool.false_ne_true hflag, text, htext,
        hbs⟩
  · rintro ⟨⟨version, payload, isText⟩, hversion, hisText, text, htext, hpayload⟩
    refine ⟨Version.wellFormed_iff.2 ⟨version, hversion⟩, text, htext, ?_⟩
    cases isText with
    | true => exact .inl (hisText.1 rfl)
    | false => exact .inr (Hex.isText_iff.2 ⟨payload, hpayload⟩)

end Message

/-! ### Sealed messages -/

namespace SealedMessage

/-- An object of its own with two texts in hexadecimal. -/
structure WellFormed (kind : Kind) (o : Object) : Prop where
  version : Version.WellFormed kind.name o
  body : ∃ body : Object, o.get? kind.marker = some (.object body) ∧
    body.IsHex "data" ∧ body.IsHex "nonce"

structure GivenBy (m : SealedMessage) (kind : Kind) (o : Object) : Prop where
  version : Version.GivenBy m.version kind.name o
  body : ∃ body : Object, o.get? kind.marker = some (.object body) ∧
    body.HexIs "data" m.ciphertext ∧ body.HexIs "nonce" m.nonce ∧
    (m.isText = true ↔ body.get? "isText" = some (.bool true))

variable {kind : Kind} {o : Object}

theorem ofFields_eq_ok_iff {m : SealedMessage} : ofFields kind o = .ok m ↔ m.GivenBy kind o := by
  constructor
  · intro h
    obtain ⟨version, hversion, h⟩ := of_bind_eq_ok h
    obtain ⟨body, hbody, h⟩ := of_bind_eq_ok h
    obtain ⟨ciphertext, hdata, h⟩ := of_bind_eq_ok h
    obtain ⟨nonce, hnonce, h⟩ := of_bind_eq_ok h
    cases h
    exact ⟨Version.ofFields_eq_ok_iff.1 hversion, body, object_eq_ok_iff.1 hbody,
      hex_eq_ok_iff.1 hdata, hex_eq_ok_iff.1 hnonce, flag_eq_true_iff⟩
  · obtain ⟨version, ciphertext, nonce, isText⟩ := m
    rintro ⟨hversion, body, hbody, hdata, hnonce, hisText⟩
    have hflag : body.flag "isText" = isText :=
      Bool.eq_iff_iff.2 (flag_eq_true_iff.trans hisText.symm)
    unfold ofFields
    rw [Version.ofFields_eq_ok_iff.2 hversion, object_eq_ok_iff.2 hbody]
    show (do let ciphertext ← body.hex "data"
             let nonce ← body.hex "nonce"
             pure (⟨version, ciphertext, nonce, body.flag "isText"⟩ : SealedMessage)) = _
    rw [hex_eq_ok_iff.2 hdata, hex_eq_ok_iff.2 hnonce, hflag]
    rfl

theorem wellFormed_iff : WellFormed kind o ↔ ∃ m : SealedMessage, m.GivenBy kind o := by
  constructor
  · rintro ⟨hversion, body, hbody, hdata, hnonce⟩
    obtain ⟨version, hversion⟩ := Version.wellFormed_iff.1 hversion
    obtain ⟨ciphertext, hdata⟩ := isHex_iff.1 hdata
    obtain ⟨nonce, hnonce⟩ := isHex_iff.1 hnonce
    exact ⟨⟨version, ciphertext, nonce, body.flag "isText"⟩, hversion, body, hbody, hdata, hnonce,
      flag_eq_true_iff⟩
  · rintro ⟨m, hversion, body, hbody, hdata, hnonce, -⟩
    exact ⟨Version.wellFormed_iff.2 ⟨_, hversion⟩, body, hbody, isHex_iff.2 ⟨_, hdata⟩,
      isHex_iff.2 ⟨_, hnonce⟩⟩

end SealedMessage

/-! ### Announcements -/

namespace Announcement

structure WellFormed (o : Object) : Prop where
  version : Version.WellFormed Kind.announcement.name o
  key : o.IsHex Kind.announcement.marker

structure GivenBy (a : Announcement) (o : Object) : Prop where
  version : Version.GivenBy a.version Kind.announcement.name o
  key : o.HexIs Kind.announcement.marker a.key

variable {o : Object}

theorem ofFields_eq_ok_iff {a : Announcement} : ofFields o = .ok a ↔ a.GivenBy o := by
  constructor
  · intro h
    obtain ⟨version, hversion, h⟩ := of_bind_eq_ok h
    obtain ⟨key, hkey, h⟩ := of_bind_eq_ok h
    cases h
    exact ⟨Version.ofFields_eq_ok_iff.1 hversion, hex_eq_ok_iff.1 hkey⟩
  · rintro ⟨hversion, hkey⟩
    unfold ofFields
    rw [Version.ofFields_eq_ok_iff.2 hversion, hex_eq_ok_iff.2 hkey]
    rfl

theorem wellFormed_iff : WellFormed o ↔ ∃ a : Announcement, a.GivenBy o := by
  constructor
  · rintro ⟨hversion, hkey⟩
    obtain ⟨version, hversion⟩ := Version.wellFormed_iff.1 hversion
    obtain ⟨key, hkey⟩ := isHex_iff.1 hkey
    exact ⟨⟨version, key⟩, hversion, hkey⟩
  · rintro ⟨a, hversion, hkey⟩
    exact ⟨Version.wellFormed_iff.2 ⟨_, hversion⟩, isHex_iff.2 ⟨_, hkey⟩⟩

end Announcement

/-! ### Phasings -/

namespace Weighting

/-- A number that stands for a model, and an asset for the one that weighs votes by it. -/
structure WellFormed (o : Object) : Prop where
  model : o.IsNatural "votingModel" 2
  asset : o.get? "votingModel" = some (.ofWord 2) → o.IsNatural "assetId" (2 ^ 64 - 1)

structure GivenBy (w : Weighting) (o : Object) : Prop where
  model : o.get? "votingModel" = some (.ofWord w.model.code.toUInt64)
  asset : if w.model = .asset then o.get? "assetId" = some (.ofWord w.assetId) else w.assetId = 0

variable {o : Object}

theorem ofFields_eq_ok_iff {w : Weighting} : ofFields o = .ok w ↔ w.GivenBy o := by
  constructor
  · intro h
    obtain ⟨code, hcode, h⟩ := of_bind_eq_ok h
    have hcode := byte_eq_ok_iff.1 hcode
    cases hmodel : VotingModel.ofCode? code with
    | none =>
      rw [hmodel] at h
      cases h
    | some model =>
      rw [hmodel] at h
      obtain rfl := VotingModel.ofCode?_eq_some_iff.1 hmodel
      cases model with
      | balance =>
        cases h
        exact ⟨hcode, rfl⟩
      | account =>
        cases h
        exact ⟨hcode, rfl⟩
      | asset =>
        obtain ⟨id, hid, h⟩ := of_bind_eq_ok h
        cases h
        exact ⟨hcode, word64_eq_ok_iff.1 hid⟩
  · rintro ⟨hmodel, hasset⟩
    unfold ofFields
    rw [byte_eq_ok_iff.2 hmodel]
    cases w with
    | balance => rfl
    | account => rfl
    | asset id =>
      show (do let id ← o.word64 "assetId"; pure (Weighting.asset id)) = _
      rw [word64_eq_ok_iff.2 hasset]
      rfl

theorem wellFormed_iff : WellFormed o ↔ ∃ w : Weighting, w.GivenBy o := by
  constructor
  · rintro ⟨⟨n, hn, hmost⟩, hasset⟩
    have hcases : n = 0 ∨ n = 1 ∨ n = 2 := by
      simp only [← UInt64.toNat_inj, UInt64.reduceToNat]
      omega
    rcases hcases with rfl | rfl | rfl
    · exact ⟨.balance, hn, rfl⟩
    · exact ⟨.account, hn, rfl⟩
    · obtain ⟨id, hid⟩ := isNatural_word64_iff.1 (hasset hn)
      exact ⟨.asset id, hn, hid⟩
  · rintro ⟨w, hmodel, hasset⟩
    have hcode : ∀ model : VotingModel, model.code.toUInt64.toNat ≤ 2 := by
      rintro (_ | _ | _) <;> decide
    refine ⟨⟨_, hmodel, hcode w.model⟩, fun htwo => isNatural_word64_iff.2 ?_⟩
    rw [hmodel] at htwo
    cases w with
    | balance => cases htwo
    | account => cases htwo
    | asset id => exact ⟨id, hasset⟩

/-- The weighting is read from the model, and from the asset for the one that has an asset. -/
theorem ofFields_congr {o' : Object} (hmodel : o'.get? "votingModel" = o.get? "votingModel")
    (hasset : o.get? "votingModel" = some (.ofWord 2) → o'.get? "assetId" = o.get? "assetId") :
    ofFields o' = ofFields o := by
  have hbyte : o'.byte "votingModel" = o.byte "votingModel" := by
    simp only [byte, word64, hmodel]
  unfold ofFields
  rw [hbyte]
  cases hcode : o.byte "votingModel" with
  | error e => rfl
  | ok code =>
    have hid : VotingModel.ofCode? code = some .asset →
        o'.word64 "assetId" = o.word64 "assetId" := by
      intro h
      obtain rfl := VotingModel.ofCode?_eq_some_iff.1 h
      simp only [word64, hasset (byte_eq_ok_iff.1 hcode)]
    simp only [bind, Except.bind]
    cases hmodel : VotingModel.ofCode? code with
    | none => rfl
    | some model =>
      cases model with
      | balance => rfl
      | account => rfl
      | asset => simp only [hid hmodel]

end Weighting

namespace Phasing

structure WellFormed (o : Object) : Prop where
  version : Version.WellFormed Kind.phasing.name o
  maxHeight : o.IsNatural Kind.phasing.marker (2 ^ 32 - 1)
  quorum : o.IsNatural "quorum" (2 ^ 64 - 1)
  threshold : o.IsNatural "voteThreshold" (2 ^ 64 - 1)
  weighting : Weighting.WellFormed o
  voters : o.IsNaturals "possibleVoters"

structure GivenBy (p : Phasing) (o : Object) : Prop where
  version : Version.GivenBy p.version Kind.phasing.name o
  maxHeight : o.get? Kind.phasing.marker = some (.ofWord p.maxHeight.toUInt64)
  quorum : o.get? "quorum" = some (.ofWord p.quorum)
  threshold : o.get? "voteThreshold" = some (.ofWord p.threshold)
  weighting : p.weighting.GivenBy o
  voters : o.get? "possibleVoters" = some (.array (p.voters.map .ofWord))

variable {o : Object}

theorem ofFields_eq_ok_iff {p : Phasing} : ofFields o = .ok p ↔ p.GivenBy o := by
  constructor
  · intro h
    obtain ⟨weighting, hweighting, h⟩ := of_bind_eq_ok h
    obtain ⟨version, hversion, h⟩ := of_bind_eq_ok h
    obtain ⟨maxHeight, hmaxHeight, h⟩ := of_bind_eq_ok h
    obtain ⟨quorum, hquorum, h⟩ := of_bind_eq_ok h
    obtain ⟨threshold, hthreshold, h⟩ := of_bind_eq_ok h
    obtain ⟨voters, hvoters, h⟩ := of_bind_eq_ok h
    cases h
    exact ⟨Version.ofFields_eq_ok_iff.1 hversion, word32_eq_ok_iff.1 hmaxHeight,
      word64_eq_ok_iff.1 hquorum, word64_eq_ok_iff.1 hthreshold,
      Weighting.ofFields_eq_ok_iff.1 hweighting, words_eq_ok_iff.1 hvoters⟩
  · rintro ⟨hversion, hmaxHeight, hquorum, hthreshold, hweighting, hvoters⟩
    unfold ofFields
    rw [Weighting.ofFields_eq_ok_iff.2 hweighting, Version.ofFields_eq_ok_iff.2 hversion,
      word32_eq_ok_iff.2 hmaxHeight, word64_eq_ok_iff.2 hquorum, word64_eq_ok_iff.2 hthreshold,
      words_eq_ok_iff.2 hvoters]
    rfl

theorem wellFormed_iff : WellFormed o ↔ ∃ p : Phasing, p.GivenBy o := by
  constructor
  · rintro ⟨hversion, hmaxHeight, hquorum, hthreshold, hweighting, hvoters⟩
    obtain ⟨version, hversion⟩ := Version.wellFormed_iff.1 hversion
    obtain ⟨maxHeight, hmaxHeight⟩ := isNatural_word32_iff.1 hmaxHeight
    obtain ⟨quorum, hquorum⟩ := isNatural_word64_iff.1 hquorum
    obtain ⟨threshold, hthreshold⟩ := isNatural_word64_iff.1 hthreshold
    obtain ⟨weighting, hweighting⟩ := Weighting.wellFormed_iff.1 hweighting
    obtain ⟨voters, hvoters⟩ := isNaturals_iff.1 hvoters
    exact ⟨⟨version, maxHeight, quorum, threshold, weighting, voters⟩, hversion, hmaxHeight,
      hquorum, hthreshold, hweighting, hvoters⟩
  · rintro ⟨p, hversion, hmaxHeight, hquorum, hthreshold, hweighting, hvoters⟩
    exact ⟨Version.wellFormed_iff.2 ⟨_, hversion⟩, isNatural_word32_iff.2 ⟨_, hmaxHeight⟩,
      isNatural_word64_iff.2 ⟨_, hquorum⟩, isNatural_word64_iff.2 ⟨_, hthreshold⟩,
      Weighting.wellFormed_iff.2 ⟨_, hweighting⟩, isNaturals_iff.2 ⟨_, hvoters⟩⟩

end Phasing

end LedgerAppendix
