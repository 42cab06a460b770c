import LedgerAppendix.Attachment
import LedgerAppendix.Proofs.Text.Hex

/-!
# Fields of appendices that share an object

Putting an appendix into an object lays some fields over the ones that are there. No two kinds have
a field in common, so the fields of one kind are the same in the shared object as in an object of
their own.

The second half is about one field: what has to stand in it to be read as a value. A field that is
read as a number, a text or a list of numbers is that number, text or list; only hexadecimal, and
the version, have more than one way to be written.
-/

namespace LedgerAppendix

open Json (Object)

namespace Json.Object

/-! ### Laying fields over others -/

/-- The function gives some fields their values, and the others keep theirs. -/
def Overlays (put : Object → Object) : Prop :=
  ∀ o name, (put o).get? name = ((put []).get? name).or (o.get? name)

theorem get?_insert_of_ne {key name : String} {value : Json} {o : Object} (h : key ≠ name) :
    (o.insert key value).get? name = o.get? name := by
  rw [get?_insert, if_neg h]

theorem overlays_insert (key : String) (value : Json) : Overlays (insert key value) := by
  intro o name
  rw [get?_insert, get?_insert]
  split <;> rfl

theorem Overlays.comp {f g : Object → Object} (hg : Overlays g) (hf : Overlays f) :
    Overlays fun o => g (f o) := by
  intro o name
  rw [hg (f o), hg (f []), hf o, Option.or_assoc]

end Json.Object

open Json.Object

theorem Version.overlays_put (version : UInt8) (name : String) :
    Overlays (Version.put version name) := by
  intro o key
  unfold Version.put
  split
  · exact overlays_insert _ _ o key
  · rfl

theorem Weighting.overlays_put (w : Weighting) : Overlays w.put := by
  cases w with
  | balance => exact overlays_insert _ _
  | account => exact overlays_insert _ _
  | asset id => exact (overlays_insert _ _).comp (overlays_insert _ _)

theorem Appendix.overlays_put (a : Appendix) : Overlays a.put := by
  cases a with
  | message m =>
    exact (overlays_insert _ _).comp ((overlays_insert _ _).comp (Version.overlays_put _ _))
  | encryptedMessage m => exact (overlays_insert _ _).comp (Version.overlays_put _ _)
  | announcement a => exact (overlays_insert _ _).comp (Version.overlays_put _ _)
  | encryptToSelf m => exact (overlays_insert _ _).comp (Version.overlays_put _ _)
  | phasing p =>
    exact (overlays_insert _ _).comp (p.weighting.overlays_put.comp
      ((overlays_insert _ _).comp ((overlays_insert _ _).comp
        ((overlays_insert _ _).comp (Version.overlays_put _ _)))))

/-! ### The fields of a kind -/

/-- The fields that an appendix of a kind is read from. -/
def Kind.fields (kind : Kind) : List String :=
  Version.field kind.name :: kind.marker ::
    match kind with
    | .message => ["messageIsText"]
    | .phasing => ["votingModel", "assetId", "quorum", "voteThreshold", "possibleVoters"]
    | _ => []

/-- A field belongs to one kind only. -/
theorem Kind.eq_of_mem_fields {j k : Kind} {key : String} (hj : key ∈ j.fields)
    (hk : key ∈ k.fields) : j = k := by
  have hdisjoint : ∀ key ∈ j.fields, key ∈ k.fields → j = k := by
    cases j <;> cases k <;> decide
  exact hdisjoint key hj hk

theorem Weighting.get?_put_of_ne {w : Weighting} {key : String} (o : Object)
    (hmodel : "votingModel" ≠ key) (hasset : "assetId" ≠ key) :
    (w.put o).get? key = o.get? key := by
  cases w <;> simp [Weighting.put, get?_insert, hmodel, hasset]

/-! ### The fields that are written -/

/-- The field that a version is put into, if it is put into one. -/
def Version.writes (version : UInt8) (name : String) : List String :=
  if 0 < version then [field name] else []

/-- The fields that a weighting is put into. -/
def Weighting.writes : Weighting → List String
  | .asset _ => ["votingModel", "assetId"]
  | _ => ["votingModel"]

/-- The fields that an appendix is put into. -/
def Appendix.writes (a : Appendix) : List String :=
  Version.writes a.version a.kind.name ++ a.kind.marker ::
    match a with
    | .message _ => ["messageIsText"]
    | .phasing p => p.weighting.writes ++ ["quorum", "voteThreshold", "possibleVoters"]
    | _ => []

theorem Version.get?_put_of_not_mem {version : UInt8} {name key : String} (o : Object)
    (h : key ∉ writes version name) : (Version.put version name o).get? key = o.get? key := by
  by_cases hversion : 0 < version
  · rw [writes, if_pos hversion, List.mem_singleton] at h
    rw [Version.put, if_pos hversion, get?_insert_of_ne (Ne.symm h)]
  · rw [Version.put, if_neg hversion]

theorem Weighting.get?_put_of_not_mem {w : Weighting} {key : String} (o : Object)
    (h : key ∉ w.writes) : (w.put o).get? key = o.get? key := by
  cases w <;> simp_all [Weighting.put, writes, get?_insert, eq_comm]

namespace Appendix

/-- An appendix is put into no other fields. -/
theorem get?_put_of_not_mem {a : Appendix} {key : String} (o : Object) (h : key ∉ a.writes) :
    (a.put o).get? key = o.get? key := by
  have hversion : key ∉ Version.writes a.version a.kind.name :=
    fun hkey => h (List.mem_append_left _ hkey)
  have hne : ∀ name ∈ a.writes, name ≠ key := by
    rintro name hname rfl
    exact h hname
  simp only [writes, List.forall_mem_append, List.forall_mem_cons] at hne
  obtain ⟨-, hmarker, hothers⟩ := hne
  cases a with
  | message m =>
    have hflag := hothers "messageIsText" List.mem_cons_self
    exact (get?_insert_of_ne hflag).trans
      ((get?_insert_of_ne hmarker).trans (Version.get?_put_of_not_mem o hversion))
  | encryptedMessage | announcement | encryptToSelf =>
    exact (get?_insert_of_ne hmarker).trans (Version.get?_put_of_not_mem o hversion)
  | phasing p =>
    obtain ⟨hweighting, hothers⟩ := List.forall_mem_append.1 hothers
    have hquorum := hothers "quorum" (by decide)
    have hthreshold := hothers "voteThreshold" (by decide)
    have hvoters := hothers "possibleVoters" (by decide)
    calc
      _ = _ := get?_insert_of_ne hvoters
      _ = _ := Weighting.get?_put_of_not_mem _ fun hkey => hweighting key hkey rfl
      _ = _ := get?_insert_of_ne hthreshold
      _ = _ := get?_insert_of_ne hquorum
      _ = _ := get?_insert_of_ne hmarker
      _ = o.get? key := Version.get?_put_of_not_mem o hversion

theorem mem_fields_of_mem_writes {a : Appendix} {key : String} (h : key ∈ a.writes) :
    key ∈ a.kind.fields := by
  rcases List.mem_append.1 h with h | h
  · unfold Version.writes at h
    split at h
    · obtain rfl := List.mem_singleton.1 h
      exact List.mem_cons_self
    · cases h
  · apply List.mem_cons_of_mem
    cases a with
    | message | encryptedMessage | announcement | encryptToSelf => exact h
    | phasing p =>
      have hwritten : ∀ w : Weighting, ∀ key ∈
          Kind.phasing.marker :: (w.writes ++ ["quorum", "voteThreshold", "possibleVoters"]),
            key ∈ Kind.phasing.fields.tail := by
        rintro (_ | _ | id) <;> simp [Weighting.writes, Kind.fields]
      exact hwritten p.weighting key h

/-- An appendix is put into the fields of its kind only. -/
theorem get?_toObject_of_not_mem {a : Appendix} {key : String} (h : key ∉ a.kind.fields) :
    a.toObject.get? key = none :=
  get?_put_of_not_mem [] fun hkey => h (mem_fields_of_mem_writes hkey)

end Appendix

/-! ### Reading a field -/

namespace Json.Object

/-- The field is missing or null. -/
def Lacks (o : Object) (field : String) : Prop := o.get? field = none ∨ o.get? field = some .null

/-- The field is a text that spells some bytes in hexadecimal. -/
def HexIs (o : Object) (field : String) (bs : List UInt8) : Prop :=
  ∃ text, o.get? field = some (.string text) ∧ Hex.Spells text bs

variable {o : Object} {field : String}

theorem present?_eq_none_iff : o.present? field = none ↔ o.Lacks field := by
  unfold present? Lacks
  split <;> simp_all

theorem present?_of_not_lacks (h : ¬o.Lacks field) : o.present? field = o.get? field := by
  unfold present?
  split
  · next hnull => exact absurd (.inr hnull) h
  · rfl

theorem string_eq_ok_iff {text : String} :
    o.string field = .ok text ↔ o.get? field = some (.string text) := by
  unfold string
  split <;> simp_all [refuse]

theorem hexText_eq_ok_iff {text : String} {bs : List UInt8} :
    hexText field text = .ok bs ↔ Hex.Spells text bs := by
  rw [← Hex.decode_eq_ok_iff, hexText]
  split <;> simp_all [refuse]

theorem hex_eq_ok_iff {bs : List UInt8} : o.hex field = .ok bs ↔ o.HexIs field bs := by
  constructor
  · intro h
    obtain ⟨text, htext, h⟩ := of_bind_eq_ok h
    exact ⟨text, string_eq_ok_iff.1 htext, hexText_eq_ok_iff.1 h⟩
  · rintro ⟨text, htext, h⟩
    rw [hex, string_eq_ok_iff.2 htext]
    exact hexText_eq_ok_iff.2 h

theorem flag_eq_true_iff : o.flag field = true ↔ o.get? field = some (.bool true) := by
  unfold flag
  split <;> simp_all

theorem object_eq_ok_iff {fields : Object} :
    o.object field = .ok fields ↔ o.get? field = some (.object fields) := by
  unfold object
  split <;> simp_all [refuse]

theorem word?_eq_some_iff {value : Json} {n : UInt64} :
    value.word? = some n ↔ value = .ofWord n := by
  unfold word? ofWord
  split <;> simp_all

theorem word64_eq_ok_iff {n : UInt64} :
    o.word64 field = .ok n ↔ o.get? field = some (.ofWord n) := by
  unfold word64
  cases o.get? field with
  | none => simp [refuse]
  | some value =>
    rw [Option.some.injEq, ← word?_eq_some_iff]
    dsimp only
    cases value.word? <;> simp [refuse]

theorem toUInt64_toUInt32 {n : UInt64} (h : n.toNat < UInt32.size) : n.toUInt32.toUInt64 = n := by
  apply UInt64.toNat_inj.1
  rw [UInt32.toNat_toUInt64, UInt64.toNat_toUInt32]
  exact Nat.mod_eq_of_lt h

theorem toUInt64_toUInt8 {n : UInt64} (h : n.toNat < UInt8.size) : n.toUInt8.toUInt64 = n := by
  apply UInt64.toNat_inj.1
  rw [UInt8.toNat_toUInt64, UInt64.toNat_toUInt8]
  exact Nat.mod_eq_of_lt h

theorem word32_eq_ok_iff {n : UInt32} :
    o.word32 field = .ok n ↔ o.get? field = some (.ofWord n.toUInt64) := by
  constructor
  · intro h
    obtain ⟨m, hm, h⟩ := of_bind_eq_ok h
    split at h
    · next hlt =>
      cases h
      rw [word64_eq_ok_iff.1 hm, toUInt64_toUInt32 hlt]
    · cases h
  · intro h
    have hn : n.toUInt64.toNat < UInt32.size := by
      rw [UInt32.toNat_toUInt64]
      exact n.toNat_lt
    rw [word32, word64_eq_ok_iff.2 h]
    show (if n.toUInt64.toNat < UInt32.size then pure n.toUInt64.toUInt32 else _) = _
    rw [if_pos hn, UInt32.toUInt32_toUInt64]
    rfl

theorem byte_eq_ok_iff {n : UInt8} :
    o.byte field = .ok n ↔ o.get? field = some (.ofWord n.toUInt64) := by
  constructor
  · intro h
    obtain ⟨m, hm, h⟩ := of_bind_eq_ok h
    split at h
    · next hlt =>
      cases h
      rw [word64_eq_ok_iff.1 hm, toUInt64_toUInt8 hlt]
    · cases h
  · intro h
    have hn : n.toUInt64.toNat < UInt8.size := by
      rw [UInt8.toNat_toUInt64]
      exact n.toNat_lt
    rw [byte, word64_eq_ok_iff.2 h]
    show (if n.toUInt64.toNat < UInt8.size then pure n.toUInt64.toUInt8 else _) = _
    rw [if_pos hn, UInt8.toUInt8_toUInt64]
    rfl

theorem wordItems_eq_ok_iff {items : List Json} {ns : List UInt64} :
    wordItems field items = .ok ns ↔ items = ns.map .ofWord := by
  induction items generalizing ns with
  | nil => cases ns <;> simp [wordItems]
  | cons item rest ih =>
    constructor
    · intro h
      unfold wordItems at h
      split at h
      · next n hn =>
        obtain ⟨others, hothers, h⟩ := of_bind_eq_ok h
        cases h
        rw [List.map_cons, ← ih.1 hothers, word?_eq_some_iff.1 hn]
      · cases h
    · intro h
      obtain ⟨n, ns, rfl, rfl, rfl⟩ := List.map_eq_cons_iff.1 h.symm
      show (do let others ← wordItems field (ns.map .ofWord); pure (n :: others)) = _
      rw [ih.2 rfl]
      rfl

theorem words_eq_ok_iff {ns : List UInt64} :
    o.words field = .ok ns ↔ o.get? field = some (.array (ns.map .ofWord)) := by
  unfold words
  split <;> simp_all [refuse, wordItems_eq_ok_iff]

end Json.Object

namespace Version

variable {o : Object} {version : UInt8} {name : String}

/-- The version that an object gives the appendix with a name: 0 if it says nothing. -/
def GivenBy (version : UInt8) (name : String) (o : Object) : Prop :=
  o.Lacks (field name) ∧ version = 0 ∨ o.get? (field name) = some (.ofWord version.toUInt64)

theorem ofField_eq_ok_iff {value : Json} :
    ofField name value = .ok version ↔ value = .ofWord version.toUInt64 := by
  constructor
  · intro h
    unfold ofField at h
    split at h
    · next n hn =>
      split at h
      · next hlt =>
        -- the number is small enough for a version
        cases h
        rw [word?_eq_some_iff.1 hn, toUInt64_toUInt8 hlt]
      · -- it is too large
        cases h
    · -- no number
      cases h
  · rintro rfl
    have hn : version.toUInt64.toNat < UInt8.size := by
      rw [UInt8.toNat_toUInt64]
      exact version.toNat_lt
    unfold ofField
    simp only [Json.ofWord, Json.word?, if_pos hn, UInt8.toUInt8_toUInt64]

theorem ofFields_eq_ok_iff : ofFields o name = .ok version ↔ GivenBy version name o := by
  unfold ofFields GivenBy
  by_cases hlacks : o.Lacks (field name)
  · rw [present?_eq_none_iff.2 hlacks]
    constructor
    · intro h
      cases h
      exact .inl ⟨hlacks, rfl⟩
    · rintro (⟨-, rfl⟩ | h)
      · -- the field is absent or null, which is no number
        rfl
      · rcases hlacks with hnone | hnull
        · rw [hnone] at h
          cases h
        · rw [hnull] at h
          cases h
  · -- the field has a value
    rw [present?_of_not_lacks hlacks]
    cases hvalue : o.get? (field name) with
    | none => exact absurd (.inl hvalue) hlacks
    | some value => simp [hlacks, ofField_eq_ok_iff]

/-- What stands in the field of a version that was put in, or the lack of it, gives the version. -/
theorem givenBy_of_get? (h : o.get? (field name) = (put version name []).get? (field name)) :
    GivenBy version name o := by
  unfold put at h
  by_cases hversion : 0 < version
  · rw [if_pos hversion, get?_insert, if_pos rfl] at h
    exact .inr h
  · rw [if_neg hversion] at h
    exact .inl ⟨.inl h, by simpa using hversion⟩

end Version

end LedgerAppendix
