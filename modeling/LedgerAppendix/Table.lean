/-!
# Tables keyed by identifiers

Accounts, polls, outcomes and votes are found by 64-bit identifiers. A table holds its entries in
strictly ascending order of their keys, so walking through one visits the keys in that order, and
two tables that answer every look-up alike are equal (`ext_get?`).

The look-up laws `get?_insert` and `get?_erase` say everything about the two operations that change
a table.
-/

namespace LedgerAppendix

structure Table (α : Type) where
  /-- Keys with their values, in ascending order. -/
  entries : List (UInt64 × α)
  ascending : entries.Pairwise fun a b => a.1 < b.1
deriving DecidableEq, Repr

namespace Table

variable {α : Type}

/-! ### Entry lists -/

/-- The value that a list of entries gives a key. -/
def find? (key : UInt64) : List (UInt64 × α) → Option α
  | [] => none
  | (k, v) :: rest => if k = key then some v else find? key rest

/-- Put an entry where its key belongs, in place of the one with that key. -/
def place (key : UInt64) (value : α) : List (UInt64 × α) → List (UInt64 × α)
  | [] => [(key, value)]
  | (k, v) :: rest =>
    if key < k then (key, value) :: (k, v) :: rest
    else if k = key then (key, value) :: rest
    else (k, v) :: place key value rest

theorem fst_of_mem_place {key : UInt64} {value : α} {l : List (UInt64 × α)} {e : UInt64 × α}
    (h : e ∈ place key value l) : e.1 = key ∨ e ∈ l := by
  induction l with
  | nil => simp_all [place]
  | cons head rest ih =>
    obtain ⟨k, v⟩ := head
    simp only [place] at h
    split at h
    · -- the entry goes in front
      rcases List.mem_cons.1 h with rfl | h <;> simp_all
    · -- the entry does not go in front
      split at h
      · -- it replaces the first one
        rcases List.mem_cons.1 h with rfl | h <;> simp_all
      · -- it goes further down
        rcases List.mem_cons.1 h with rfl | h
        · simp
        · rcases ih h with h | h <;> simp [h]

theorem ascending_place {l : List (UInt64 × α)} (key : UInt64) (value : α)
    (h : l.Pairwise fun a b => a.1 < b.1) :
    (place key value l).Pairwise fun a b => a.1 < b.1 := by
  induction l with
  | nil => simp [place]
  | cons head rest ih =>
    obtain ⟨k, v⟩ := head
    obtain ⟨above, hrest⟩ := List.pairwise_cons.1 h
    simp only [place]
    split
    · next lt =>
      -- the entry goes in front, below every key that follows
      refine List.pairwise_cons.2 ⟨fun e he => ?_, h⟩
      rcases List.mem_cons.1 he with rfl | he
      · exact lt
      · exact UInt64.lt_trans lt (above e he)
    · -- the entry does not go in front
      split
      · next eq =>
        -- it replaces the first one under the same key
        subst eq
        exact List.pairwise_cons.2 ⟨above, hrest⟩
      · next not_lt ne =>
        -- it goes further down, above the first key
        refine List.pairwise_cons.2 ⟨fun e he => ?_, ih hrest⟩
        rcases fst_of_mem_place he with eq | he
        · rw [eq]
          exact UInt64.lt_of_le_of_ne (UInt64.not_lt.1 not_lt) ne
        · exact above e he

theorem find?_place (key : UInt64) (value : α) (l : List (UInt64 × α)) (k : UInt64) :
    find? k (place key value l) = if key = k then some value else find? k l := by
  induction l with
  | nil => simp [place, find?]
  | cons head rest ih =>
    obtain ⟨j, v⟩ := head
    simp only [place]
    split
    · -- the entry goes in front
      simp [find?]
    · -- the entry does not go in front
      split
      · next eq =>
        -- it replaces the first one
        subst eq
        by_cases hk : j = k <;> simp [find?, hk]
      · next ne =>
        -- it goes further down: only the first entry can answer before it
        by_cases hj : j = k
        · have hk : key ≠ k := fun e => ne (hj.trans e.symm)
          simp [find?, hj, hk]
        · simp [find?, hj, ih]

theorem find?_eq_none_of_forall_lt {key : UInt64} {l : List (UInt64 × α)}
    (h : ∀ e ∈ l, key < e.1) : find? key l = none := by
  induction l with
  | nil => rfl
  | cons head rest ih =>
    obtain ⟨k, v⟩ := head
    have hk : k ≠ key := fun e => UInt64.lt_irrefl key (by simpa [e] using h (k, v) (by simp))
    simp [find?, hk, ih fun e he => h e (List.mem_cons_of_mem _ he)]

theorem find?_filter_ne (key : UInt64) (l : List (UInt64 × α)) (k : UInt64) :
    find? k (l.filter fun e => e.1 ≠ key) = if key = k then none else find? k l := by
  induction l with
  | nil => simp [find?]
  | cons head rest ih =>
    obtain ⟨j, v⟩ := head
    by_cases hj : j = key
    · subst hj
      rw [List.filter_cons_of_neg (by simp), ih]
      by_cases hk : j = k <;> simp [find?, hk]
    · rw [List.filter_cons_of_pos (by simpa using hj)]
      by_cases hjk : j = k
      · have hk : key ≠ k := fun e => hj (hjk.trans e.symm)
        simp [find?, hjk, hk]
      · simp only [find?, hjk, if_false, ih]

/-- A list that starts with a key does not answer like one whose keys are all greater. -/
theorem not_lt_of_find?_eq {k k' : UInt64} {v v' : α} {rest rest' : List (UInt64 × α)}
    (above : ∀ e ∈ rest', k' < e.1) (h : find? k ((k, v) :: rest) = find? k ((k', v') :: rest')) :
    ¬k < k' := by
  intro hlt
  have hnone : find? k ((k', v') :: rest') = none :=
    find?_eq_none_of_forall_lt fun e he => by
      rcases List.mem_cons.1 he with rfl | he
      · exact hlt
      · exact UInt64.lt_trans hlt (above e he)
  rw [hnone] at h
  simp [find?] at h

/-- Entries in ascending order are determined by the look-ups that they answer. -/
theorem eq_of_find?_eq {l m : List (UInt64 × α)} (hl : l.Pairwise fun a b => a.1 < b.1)
    (hm : m.Pairwise fun a b => a.1 < b.1) (h : ∀ k, find? k l = find? k m) : l = m := by
  induction l generalizing m with
  | nil =>
    cases m with
    | nil => rfl
    | cons head rest => simpa [find?] using h head.1
  | cons head rest ih =>
    obtain ⟨k, v⟩ := head
    obtain ⟨above, hrest⟩ := List.pairwise_cons.1 hl
    cases m with
    | nil => simpa [find?] using h k
    | cons head' rest' =>
      obtain ⟨k', v'⟩ := head'
      obtain ⟨above', hrest'⟩ := List.pairwise_cons.1 hm
      obtain rfl : k = k' := UInt64.le_antisymm
        (UInt64.not_lt.1 (not_lt_of_find?_eq above (h k').symm))
        (UInt64.not_lt.1 (not_lt_of_find?_eq above' (h k)))
      obtain rfl : v = v' := by simpa [find?] using h k
      refine congrArg _ (ih hrest hrest' fun j => ?_)
      by_cases hj : k = j
      · -- the first keys of both: nothing behind answers to them
        subst hj
        rw [find?_eq_none_of_forall_lt above, find?_eq_none_of_forall_lt above']
      · -- another key: only the rest answers to it
        simpa [find?, hj] using h j

/-! ### Tables -/

def empty : Table α := ⟨[], List.Pairwise.nil⟩

instance : Inhabited (Table α) := ⟨empty⟩

def get? (t : Table α) (key : UInt64) : Option α := find? key t.entries

def contains (t : Table α) (key : UInt64) : Bool := (t.get? key).isSome

def insert (t : Table α) (key : UInt64) (value : α) : Table α :=
  ⟨place key value t.entries, ascending_place key value t.ascending⟩

def erase (t : Table α) (key : UInt64) : Table α :=
  ⟨t.entries.filter fun e => e.1 ≠ key, t.ascending.filter _⟩

/-- The values, in ascending order of their keys. -/
def values (t : Table α) : List α := t.entries.map (·.2)

def size (t : Table α) : Nat := t.entries.length

@[simp] theorem get?_empty (key : UInt64) : (empty : Table α).get? key = none := rfl

theorem get?_insert (t : Table α) (key : UInt64) (value : α) (k : UInt64) :
    (t.insert key value).get? k = if key = k then some value else t.get? k :=
  find?_place key value t.entries k

theorem get?_erase (t : Table α) (key k : UInt64) :
    (t.erase key).get? k = if key = k then none else t.get? k :=
  find?_filter_ne key t.entries k

/-- Tables that answer every look-up alike are equal. -/
theorem ext_get? {s t : Table α} (h : ∀ k, s.get? k = t.get? k) : s = t := by
  obtain ⟨l, hl⟩ := s
  obtain ⟨m, hm⟩ := t
  have e : l = m := eq_of_find?_eq hl hm h
  subst e
  rfl

end Table

end LedgerAppendix
