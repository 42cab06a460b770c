import LedgerAppendix.Table

/-!
# Results and tables

What is used everywhere about the two ways to hold a value: a result, which may be an error instead,
and a table, which keeps values under keys.
-/

namespace LedgerAppendix

/-!
## Results that were made in steps

A result that was made from others is good only if these were.
-/

section Results

variable {ε α β : Type} {x : Except ε α} {b : β}

theorem of_map_eq_ok {f : α → β} (h : x.map f = .ok b) : ∃ a, x = .ok a ∧ f a = b := by
  cases x with
  | error e => cases h
  | ok a =>
    cases h
    exact ⟨a, rfl, rfl⟩

theorem of_map_eq_error {f : α → β} {e : ε} (h : x.map f = .error e) : x = .error e := by
  cases x with
  | error e' => exact congrArg Except.error (Except.error.inj h)
  | ok a => cases h

theorem of_bind_eq_ok {f : α → Except ε β} (h : x >>= f = .ok b) :
    ∃ a, x = .ok a ∧ f a = .ok b := by
  cases x with
  | error e => cases h
  | ok a => exact ⟨a, rfl, h⟩

end Results

/-!
## What a table holds

The entries of a table are the look-ups that it answers, and no key stands in two of them. So an
entry that is new comes to the others, wherever it is placed.
-/

namespace Table

variable {α : Type}

theorem contains_eq_false_iff {t : Table α} {key : UInt64} :
    t.contains key = false ↔ t.get? key = none := by
  simp [contains]

theorem get?_insert_self (t : Table α) (key : UInt64) (value : α) :
    (t.insert key value).get? key = some value := by
  rw [get?_insert, if_pos rfl]

theorem get?_insert_of_ne {t : Table α} {key k : UInt64} (value : α) (h : key ≠ k) :
    (t.insert key value).get? k = t.get? k := by
  rw [get?_insert, if_neg h]

theorem get?_erase_self (t : Table α) (key : UInt64) : (t.erase key).get? key = none := by
  rw [get?_erase, if_pos rfl]

theorem get?_erase_of_ne {t : Table α} {key k : UInt64} (h : key ≠ k) :
    (t.erase key).get? k = t.get? k := by
  rw [get?_erase, if_neg h]

/-- Entries with different keys are put in in any order. -/
theorem insert_comm (t : Table α) {j k : UInt64} (h : j ≠ k) (a b : α) :
    (t.insert j a).insert k b = (t.insert k b).insert j a := by
  refine ext_get? fun i => ?_
  by_cases hk : k = i
  · rw [← hk, get?_insert_self, get?_insert_of_ne _ h, get?_insert_self]
  · rw [get?_insert_of_ne _ hk, get?_insert, get?_insert, get?_insert_of_ne _ hk]

/-- Taking an entry out and putting it back changes nothing. -/
theorem insert_erase {t : Table α} {key : UInt64} {value : α} (h : t.get? key = some value) :
    (t.erase key).insert key value = t := by
  refine ext_get? fun k => ?_
  by_cases hk : key = k
  · rw [← hk, get?_insert_self, h]
  · rw [get?_insert_of_ne _ hk, get?_erase_of_ne hk]

/-- Putting a new entry in and taking it out changes nothing. -/
theorem erase_insert {t : Table α} {key : UInt64} (value : α) (h : t.get? key = none) :
    (t.insert key value).erase key = t := by
  refine ext_get? fun k => ?_
  by_cases hk : key = k
  · rw [← hk, get?_erase_self, h]
  · rw [get?_erase_of_ne hk, get?_insert_of_ne _ hk]

/-! ### Entries -/

theorem mem_of_find?_eq_some {l : List (UInt64 × α)} {key : UInt64} {value : α}
    (h : find? key l = some value) : (key, value) ∈ l := by
  induction l with
  | nil => cases h
  | cons head rest ih =>
    obtain ⟨k, v⟩ := head
    unfold find? at h
    split at h
    · next hk =>
      cases h
      rw [hk]
      exact List.mem_cons_self
    · exact List.mem_cons_of_mem _ (ih h)

theorem find?_eq_some_of_mem {l : List (UInt64 × α)} (hl : l.Pairwise fun a b => a.1 < b.1)
    {key : UInt64} {value : α} (h : (key, value) ∈ l) : find? key l = some value := by
  induction l with
  | nil => cases h
  | cons head rest ih =>
    obtain ⟨above, hrest⟩ := List.pairwise_cons.1 hl
    rcases List.mem_cons.1 h with rfl | h
    · exact if_pos rfl
    · have hk : head.1 ≠ key := UInt64.ne_of_lt (above _ h)
      rw [find?, if_neg hk, ih hrest h]

theorem mem_entries_iff {t : Table α} {key : UInt64} {value : α} :
    (key, value) ∈ t.entries ↔ t.get? key = some value :=
  ⟨find?_eq_some_of_mem t.ascending, mem_of_find?_eq_some⟩

theorem perm_place {key : UInt64} (value : α) {l : List (UInt64 × α)} (h : find? key l = none) :
    (place key value l).Perm ((key, value) :: l) := by
  induction l with
  | nil => exact .rfl
  | cons head rest ih =>
    obtain ⟨k, v⟩ := head
    unfold find? at h
    split at h
    · cases h
    · next hk =>
      unfold place
      rw [if_neg hk]
      split
      · exact .rfl
      · exact (List.Perm.cons _ (ih h)).trans (.swap ..)

theorem perm_entries_insert {t : Table α} {key : UInt64} (value : α) (h : t.get? key = none) :
    (t.insert key value).entries.Perm ((key, value) :: t.entries) :=
  perm_place value h

/-! ### Sizes -/

theorem perm_values_insert {t : Table α} {key : UInt64} (value : α) (h : t.get? key = none) :
    (t.insert key value).values.Perm (value :: t.values) :=
  (perm_entries_insert value h).map Prod.snd

theorem size_insert {t : Table α} {key : UInt64} (value : α) (h : t.get? key = none) :
    (t.insert key value).size = t.size + 1 :=
  (perm_entries_insert value h).length_eq

theorem size_erase {t : Table α} {key : UInt64} {value : α} (h : t.get? key = some value) :
    (t.erase key).size + 1 = t.size := by
  have hback := size_insert value (get?_erase_self t key)
  rw [insert_erase h] at hback
  exact hback.symm

/-- An entry in place of another one leaves the size as it is. -/
theorem size_insert_of_known {t : Table α} {key : UInt64} {old : α} (value : α)
    (h : t.get? key = some old) : (t.insert key value).size = t.size := by
  have hreplaced : (t.erase key).insert key value = t.insert key value := by
    refine ext_get? fun k => ?_
    rw [get?_insert, get?_insert]
    split
    · rfl
    · next hk => exact get?_erase_of_ne hk
  rw [← hreplaced, size_insert value (get?_erase_self t key), size_erase h]

end Table

end LedgerAppendix
