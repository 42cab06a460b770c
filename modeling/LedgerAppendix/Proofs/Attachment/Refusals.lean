import LedgerAppendix.Attachment

/-!
# What is wrong with an attachment that is refused

Whatever an attachment object is refused for, it is a field that cannot be read, and the refusal
names it. No rule of admission is looked at before the whole object has been read, so no refusal at
this point says anything about the ledger or the transaction.
-/

namespace LedgerAppendix

open Json (Object)

variable {α β : Type}

/-- If the result is a refusal, it is one of a field. -/
def BlamesField (r : Except AppendixError α) : Prop :=
  ∀ e, r = .error e → ∃ field fault, e = .invalidJson field fault

/-! ### Steps -/

theorem BlamesField.ok (a : α) : BlamesField (.ok a) := by
  intro e h
  cases h

theorem BlamesField.refuse (field : String) (fault : FieldFault) :
    BlamesField (Object.refuse field fault : Except AppendixError α) := by
  intro e h
  cases h
  exact ⟨field, fault, rfl⟩

theorem BlamesField.bind {r : Except AppendixError α} {k : α → Except AppendixError β}
    (hr : BlamesField r) (hk : ∀ a, BlamesField (k a)) : BlamesField (r >>= k) := by
  cases r with
  | ok a => exact hk a
  | error e₁ =>
    intro e h
    cases h
    exact hr e₁ rfl

theorem BlamesField.map {r : Except AppendixError α} (hr : BlamesField r) (f : α → β) :
    BlamesField (f <$> r) := by
  cases r with
  | ok a => exact .ok _
  | error e₁ =>
    intro e h
    cases h
    exact hr e₁ rfl

/-! ### Fields -/

section Fields

variable (o : Object) (field : String)

theorem blamesField_string : BlamesField (o.string field) := by
  unfold Object.string
  split
  · exact .ok _
  · exact .refuse _ _
  · exact .refuse _ _

theorem blamesField_hexText (text : String) : BlamesField (Object.hexText field text) := by
  unfold Object.hexText
  split
  · exact .ok _
  · exact .refuse _ _

theorem blamesField_hex : BlamesField (o.hex field) :=
  (blamesField_string o field).bind (blamesField_hexText field)

theorem blamesField_word64 : BlamesField (o.word64 field) := by
  unfold Object.word64
  split
  · split
    · exact .ok _
    · exact .refuse _ _
  · exact .refuse _ _

theorem blamesField_word32 : BlamesField (o.word32 field) := by
  refine (blamesField_word64 o field).bind fun n => ?_
  split
  · exact .ok _
  · exact .refuse _ _

theorem blamesField_byte : BlamesField (o.byte field) := by
  refine (blamesField_word64 o field).bind fun n => ?_
  split
  · exact .ok _
  · exact .refuse _ _

theorem blamesField_object : BlamesField (o.object field) := by
  unfold Object.object
  split
  · exact .ok _
  · exact .refuse _ _

theorem blamesField_wordItems (items : List Json) : BlamesField (Object.wordItems field items) := by
  induction items with
  | nil => exact .ok _
  | cons item rest ih =>
    unfold Object.wordItems
    split
    · exact ih.bind fun _ => .ok _
    · exact .refuse _ _

theorem blamesField_words : BlamesField (o.words field) := by
  unfold Object.words
  split
  · exact blamesField_wordItems field _
  · exact .refuse _ _

theorem Version.blamesField_ofFields (name : String) : BlamesField (Version.ofFields o name) := by
  unfold Version.ofFields
  split
  · -- no version is given
    exact .ok _
  · unfold Version.ofField
    split
    · -- a number, which may be too large for a version
      split
      · exact .ok _
      · exact .refuse _ _
    · -- no number
      exact .refuse _ _

end Fields

/-! ### Appendices -/

section Appendices

variable (o : Object)

theorem Message.blamesField_ofFields : BlamesField (Message.ofFields o) := by
  refine (Version.blamesField_ofFields o _).bind fun version => ?_
  refine (blamesField_string o _).bind fun text => ?_
  dsimp only
  split
  · exact .ok _
  · exact (blamesField_hexText _ text).bind fun _ => .ok _

theorem SealedMessage.blamesField_ofFields (kind : Kind) :
    BlamesField (SealedMessage.ofFields kind o) :=
  (Version.blamesField_ofFields o _).bind fun _ =>
    (blamesField_object o _).bind fun body =>
      (blamesField_hex body _).bind fun _ => (blamesField_hex body _).bind fun _ => .ok _

theorem Announcement.blamesField_ofFields : BlamesField (Announcement.ofFields o) :=
  (Version.blamesField_ofFields o _).bind fun _ => (blamesField_hex o _).bind fun _ => .ok _

theorem Weighting.blamesField_ofFields : BlamesField (Weighting.ofFields o) := by
  refine (blamesField_byte o _).bind fun code => ?_
  split
  · exact .ok _
  · exact .ok _
  · exact (blamesField_word64 o _).bind fun _ => .ok _
  · exact .refuse _ _

theorem Phasing.blamesField_ofFields : BlamesField (Phasing.ofFields o) :=
  (Weighting.blamesField_ofFields o).bind fun _ =>
    (Version.blamesField_ofFields o _).bind fun _ =>
      (blamesField_word32 o _).bind fun _ =>
        (blamesField_word64 o _).bind fun _ =>
          (blamesField_word64 o _).bind fun _ => (blamesField_words o _).bind fun _ => .ok _

theorem Appendix.blamesField_ofObject? (kind : Kind) : BlamesField (Appendix.ofObject? kind o) := by
  have hfields : BlamesField (Appendix.ofFields kind o) := by
    cases kind with
    | message => exact (Message.blamesField_ofFields o).map _
    | encryptedMessage => exact (SealedMessage.blamesField_ofFields o _).map _
    | announcement => exact (Announcement.blamesField_ofFields o).map _
    | encryptToSelf => exact (SealedMessage.blamesField_ofFields o _).map _
    | phasing => exact (Phasing.blamesField_ofFields o).map _
  unfold Appendix.ofObject?
  split
  · exact .ok none
  · exact hfields.map some

theorem AppendixSet.blamesField_ofObject : BlamesField (AppendixSet.ofObject o) := by
  have hkinds : ∀ kinds, BlamesField (AppendixSet.ofObjectKinds o kinds) := by
    intro kinds
    induction kinds with
    | nil => exact .ok []
    | cons kind kinds ih =>
      exact (Appendix.blamesField_ofObject? o kind).bind fun _ => ih.bind fun _ => .ok _
  exact (hkinds Kind.all).map AppendixSet.ofList

end Appendices

end LedgerAppendix
