import LedgerAppendix.Ledger

/-!
# The keys of a ledger over time

A ledger binds a key to an account once and for all, and only the height of the binding changes
afterwards: it goes down to the least height at which the key was announced. `Binds` says this of a
ledger before and after any number of changes, of which it keeps the heights of the bindings alone,
so that one stretch of time can be put after another.
-/

namespace LedgerAppendix

theorem min?_toList {α : Type} [Min α] (o : Option α) : o.toList.min? = o := by
  cases o <;> rfl

/-- The least of two lists together, from the least of the first one. -/
theorem min?_append {α : Type} [Min α] (xs ys : List α) :
    (xs ++ ys).min? = (xs.min?.toList ++ ys).min? := by
  cases xs with
  | nil => rfl
  | cons x xs =>
    rw [List.cons_append, List.min?_cons', List.foldl_append, List.min?_cons']
    exact List.min?_cons'.symm

namespace Ledger

variable {l l' l'' : Ledger}

/-- A key has a height, and a height is that of a key. -/
theorem isSome_keyHeight? (l : Ledger) (a : AccountId) :
    (l.keyHeight? a).isSome = (l.publicKey? a).isSome := by
  rw [keyHeight?, publicKey?, Option.isSome_map, Option.isSome_map]

/-! ### Changes that have nothing to do with keys -/

def SameKeys (l l' : Ledger) : Prop := ∀ a, (l'.account a).binding = (l.account a).binding

theorem SameKeys.refl (l : Ledger) : l.SameKeys l := fun _ => rfl

theorem SameKeys.of_eq (h : l' = l) : l.SameKeys l' := h ▸ .refl l

theorem SameKeys.trans (h : l.SameKeys l') (h' : l'.SameKeys l'') : l.SameKeys l'' :=
  fun a => (h' a).trans (h a)

theorem sameKeys_credit {account : AccountId} {amount : UInt64}
    (h : l.credit account amount = .ok l') : l.SameKeys l' := by
  unfold credit at h
  split at h
  · cases h
    intro a
    rw [setBalance, account_setAccount]
    split
    · next ha => rw [ha]
    · rfl
  · cases h

/-! ### Binding a key -/

/-- An account that has another key keeps it. All others have the key afterwards, at the least of
    the heights at which it was bound to them. -/
theorem bindKey_cases (l : Ledger) (account : AccountId) (key : PublicKey) (height : UInt32) :
    (l.bindKey account key height = (false, l) ∧ ∃ k, l.publicKey? account = some k ∧ k ≠ key) ∨
      ∃ l', l.bindKey account key height = (true, l') ∧
        (∀ k, l.publicKey? account = some k → k = key) ∧ l'.publicKey? account = some key ∧
        l'.keyHeight? account = ((l.keyHeight? account).toList ++ [height]).min? ∧
        ∀ a, account ≠ a → (l'.account a).binding = (l.account a).binding := by
  have hothers : ∀ record a, account ≠ a →
      ((l.setAccount account record).account a).binding = (l.account a).binding := by
    intro record a ha
    rw [account_setAccount, if_neg ha]
  unfold bindKey publicKey? keyHeight?
  cases hbinding : (l.account account).binding with
  | none =>
    refine .inr ⟨_, rfl, nofun, ?_, ?_, hothers _⟩ <;>
      rw [account_setAccount, if_pos rfl] <;> rfl
  | some b =>
    by_cases hkey : b.key = key
    · have hrebind : KeyBinding.rebind? (some b) key height = some ⟨key, min b.height height⟩ :=
        if_pos hkey
      rw [hrebind]
      refine .inr ⟨_, rfl, fun k hk => (Option.some.inj hk).symm.trans hkey, ?_, ?_, hothers _⟩ <;>
        rw [account_setAccount, if_pos rfl] <;> rfl
    · have hrebind : KeyBinding.rebind? (some b) key height = none := if_neg hkey
      rw [hrebind]
      exact .inl ⟨rfl, b.key, rfl, hkey⟩

/-- A key that is refused leaves the ledger as it is. -/
theorem bindKey_of_refused {account : AccountId} {key : PublicKey} {height : UInt32}
    (h : (l.bindKey account key height).1 = false) : (l.bindKey account key height).2 = l := by
  rcases l.bindKey_cases account key height with ⟨hrefused, -⟩ | ⟨l', hbound, -⟩
  · rw [hrefused]
  · rw [hbound] at h
    cases h

theorem bindKey_eq_true_iff {account : AccountId} {key : PublicKey} {height : UInt32} :
    (l.bindKey account key height).1 = true ↔ ∀ k, l.publicKey? account = some k → k = key := by
  rcases l.bindKey_cases account key height with ⟨h, k, hk, hne⟩ | ⟨l', h, hsame, -⟩
  · rw [h]
    exact ⟨nofun, fun hall => absurd (hall k hk) hne⟩
  · rw [h]
    exact ⟨fun _ => hsame, fun _ => rfl⟩

theorem publicKey?_of_bound {account : AccountId} {key : PublicKey} {height : UInt32}
    (h : (l.bindKey account key height).1 = true) :
    (l.bindKey account key height).2.publicKey? account = some key := by
  rcases l.bindKey_cases account key height with ⟨hrefused, -⟩ | ⟨l', hbound, -, hkey, -⟩
  · rw [hrefused] at h
    cases h
  · rw [hbound]
    exact hkey

theorem binding_bindKey_of_ne (key : PublicKey) (height : UInt32) {account a : AccountId}
    (h : account ≠ a) :
    ((l.bindKey account key height).2.account a).binding = (l.account a).binding := by
  rcases l.bindKey_cases account key height with ⟨hrefused, -⟩ | ⟨l', hbound, -, -, -, hothers⟩
  · rw [hrefused]
  · rw [hbound]
    exact hothers a h

/-- A key that an account has after a request to bind one is that one, or was there before. -/
theorem of_publicKey?_bindKey {account a : AccountId} {key k : PublicKey} {height : UInt32}
    (h : (l.bindKey account key height).2.publicKey? a = some k) :
    account = a ∧ k = key ∨ l.publicKey? a = some k := by
  rcases l.bindKey_cases account key height with ⟨hrefused, -⟩ | ⟨l', hbound, -, hkey, -, hothers⟩
  · rw [hrefused] at h
    exact .inr h
  · rw [hbound] at h
    by_cases ha : account = a
    · subst ha
      exact .inl ⟨rfl, Option.some.inj (h.symm.trans hkey)⟩
    · rw [publicKey?, hothers a ha] at h
      exact .inr h

/-- An account that a key was offered to has a key, and if it is that one, no greater height. -/
theorem binding_bindKey (l : Ledger) (account : AccountId) (key : PublicKey) (height : UInt32) :
    ∃ b, ((l.bindKey account key height).2.account account).binding = some b ∧
      (b.key = key → b.height ≤ height) := by
  rcases l.bindKey_cases account key height with
    ⟨hrefused, k, hk, hne⟩ | ⟨l', hbound, -, hkey, hheight, -⟩
  · obtain ⟨b, hb, hbk⟩ := Option.map_eq_some_iff.1 hk
    rw [hrefused]
    exact ⟨b, hb, fun h => absurd (hbk.symm.trans h) hne⟩
  · obtain ⟨b, hb, -⟩ := Option.map_eq_some_iff.1 hkey
    rw [hbound]
    rw [keyHeight?, hb] at hheight
    have hleast := (List.min?_eq_some_iff.1 hheight.symm).2
    exact ⟨b, hb, fun _ => hleast height (List.mem_append_right _ (List.mem_singleton.2 rfl))⟩

/-- Binding a key again, or another one in vain, changes nothing, unless the height goes down. -/
theorem bindKey_again {account : AccountId} {b : KeyBinding}
    (hbinding : (l.account account).binding = some b) {key : PublicKey} {height : UInt32}
    (hheight : b.key = key → b.height ≤ height) : (l.bindKey account key height).2 = l := by
  by_cases hkey : b.key = key
  · have hmin : min b.height height = b.height := if_pos (hheight hkey)
    have hrebind : KeyBinding.rebind? (some b) key height = some b := by
      rw [KeyBinding.rebind?, if_pos hkey, hmin, ← hkey]
    have hentry : l.accounts.get? account = some (l.account account) := by
      unfold Ledger.account at hbinding ⊢
      cases hget : l.accounts.get? account with
      | none =>
        rw [hget] at hbinding
        cases hbinding
      | some record => rfl
    unfold bindKey
    rw [hbinding, hrebind]
    show l.setAccount account { l.account account with binding := some b } = l
    rw [← hbinding]
    refine congrArg Ledger.mk (Table.ext_get? fun k => ?_)
    rw [Table.get?_insert]
    split
    · next hk => rw [← hk, hentry]
    · rfl
  · have hrebind : KeyBinding.rebind? (some b) key height = none := if_neg hkey
    unfold bindKey
    rw [hbinding, hrebind]

/-! ### Any number of changes -/

/-- From one state of a ledger to a later one, where keys were bound to each account at some heights
    in between: a key that is bound stays, and its height is the least of all. -/
structure Binds (l l' : Ledger) (heights : AccountId → List UInt32) : Prop where
  key : ∀ a k, l.publicKey? a = some k → l'.publicKey? a = some k
  height : ∀ a, l'.keyHeight? a = ((l.keyHeight? a).toList ++ heights a).min?

theorem SameKeys.binds (h : l.SameKeys l') : l.Binds l' fun _ => [] := by
  constructor
  · intro a k hk
    rw [publicKey?, h a]
    exact hk
  · intro a
    rw [keyHeight?, h a, List.append_nil]
    exact (min?_toList _).symm

theorem Binds.trans {hs hs' : AccountId → List UInt32} (h : l.Binds l' hs)
    (h' : l'.Binds l'' hs') : l.Binds l'' fun a => hs a ++ hs' a := by
  constructor
  · exact fun a k hk => h'.key a k (h.key a k hk)
  · intro a
    rw [h'.height a, h.height a, ← List.append_assoc, min?_append (_ ++ _)]

theorem binds_bindKey (l : Ledger) (account : AccountId) (key : PublicKey) (height : UInt32) :
    l.Binds (l.bindKey account key height).2 fun a =>
      if (l.bindKey account key height).1 ∧ account = a then [height] else [] := by
  rcases l.bindKey_cases account key height with
    ⟨hrefused, -⟩ | ⟨l', hbound, hsame, hkey, hheight, hothers⟩
  · -- the account has another key, and nothing is bound
    simp only [hrefused, Bool.false_eq_true, false_and, if_false]
    exact (SameKeys.refl l).binds
  · -- the key is bound, from the height on
    simp only [hbound, true_and]
    constructor
    · intro a k hk
      by_cases ha : account = a
      · -- the account had this key or none
        subst ha
        rw [hkey, hsame k hk]
      · -- another account
        rw [publicKey?, hothers a ha]
        exact hk
    · intro a
      by_cases ha : account = a
      · -- the lower height is kept
        subst ha
        rw [if_pos rfl, hheight]
      · -- another account
        rw [if_neg ha, List.append_nil, keyHeight?, hothers a ha]
        exact (min?_toList _).symm

/-- No account has a new key for which there is no height. -/
theorem Binds.publicKey?_of_nil {hs : AccountId → List UInt32} (h : l.Binds l' hs) {a : AccountId}
    (hnone : hs a = []) : l'.publicKey? a = l.publicKey? a := by
  cases hkey : l.publicKey? a with
  | some k => exact h.key a k hkey
  | none =>
    have hheight : l'.keyHeight? a = l.keyHeight? a := by
      rw [h.height, hnone, List.append_nil, min?_toList]
    rw [← Option.not_isSome_iff_eq_none, ← isSome_keyHeight?, hheight, isSome_keyHeight?, hkey]
    exact Bool.false_ne_true

/-- A binding stays, but for its height, which can go down. -/
theorem Binds.binding {hs : AccountId → List UInt32} (h : l.Binds l' hs) {a : AccountId}
    {b : KeyBinding} (hb : (l.account a).binding = some b) :
    ∃ b', (l'.account a).binding = some b' ∧ b'.key = b.key ∧ b'.height ≤ b.height := by
  have hkey : l.publicKey? a = some b.key := congrArg (Option.map _) hb
  obtain ⟨b', hb', hkey'⟩ := Option.map_eq_some_iff.1 (h.key a b.key hkey)
  have hheight := h.height a
  rw [keyHeight?, hb', keyHeight?, hb] at hheight
  have hleast := (List.min?_eq_some_iff.1 hheight.symm).2
  exact ⟨b', hb', hkey', hleast b.height List.mem_cons_self⟩

end Ledger

end LedgerAppendix
