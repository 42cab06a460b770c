import LedgerAppendix.Poll
import LedgerAppendix.Proofs.Basic

/-!
# What a poll store keeps to

A store is sound if it answers, keeps every pending poll under its own identifier, and has no
identifier in both of its tables. Each request either leaves it as it is or makes one of two
changes: `put` files a poll as pending, `finish` moves an identifier from the one table to the
other. To reinstate a poll is the exact inverse of retiring it, and this needs soundness: an
outcome that stood beside the pending poll would be lost on the way back.
-/

namespace LedgerAppendix

namespace PollStore

/-- The store answers, keeps each pending poll under its own identifier, and does not keep an
    identifier both as pending and as ended. -/
structure Sound (s : PollStore) : Prop where
  isAvailable : s.isAvailable = true
  id_of_pending : ∀ {id p}, s.pending.get? id = some p → p.id = id
  not_ended : ∀ {id p}, s.pending.get? id = some p → s.outcomes.get? id = none

theorem sound_empty : empty.Sound := by
  constructor
  · rfl
  · intro id p h
    cases h
  · intro id p h
    cases h

/-- File a poll as pending, under its identifier. -/
def put (s : PollStore) (p : Poll) : PollStore := { s with pending := s.pending.insert p.id p }

/-- Take an identifier out of the pending polls, and file an outcome under it. -/
def finish (s : PollStore) (id : TransactionId) (outcome : PollOutcome) : PollStore :=
  { s with pending := s.pending.erase id, outcomes := s.outcomes.insert id outcome }

theorem of_whenAvailable_eq_ok {s : PollStore} {α : Type} {answer : Except StorageError α} {a : α}
    (h : s.whenAvailable answer = .ok a) : s.isAvailable ∧ answer = .ok a := by
  unfold PollStore.whenAvailable at h
  split at h
  · next havailable => exact ⟨havailable, h⟩
  · cases h

theorem Sound.whenAvailable {s : PollStore} (hs : s.Sound) {α : Type}
    (answer : Except StorageError α) : s.whenAvailable answer = answer :=
  if_pos hs.isAvailable

/-- A poll that has ended is not pending. -/
theorem Sound.not_pending {s : PollStore} (hs : s.Sound) {id : TransactionId}
    {outcome : PollOutcome} (h : s.outcomes.get? id = some outcome) : s.pending.get? id = none := by
  cases hpending : s.pending.get? id with
  | none => rfl
  | some p =>
    rw [hs.not_ended hpending] at h
    cases h

/-- Sound stores that answer every look-up alike are equal. -/
theorem Sound.eq_of_get? {s t : PollStore} (hs : s.Sound) (ht : t.Sound)
    (hpending : ∀ id, s.pending.get? id = t.pending.get? id)
    (houtcomes : ∀ id, s.outcomes.get? id = t.outcomes.get? id) : s = t := by
  obtain ⟨pending, outcomes, isAvailable⟩ := s
  obtain ⟨pending', outcomes', isAvailable'⟩ := t
  obtain rfl : pending = pending' := Table.ext_get? hpending
  obtain rfl : outcomes = outcomes' := Table.ext_get? houtcomes
  obtain rfl : isAvailable = isAvailable' := hs.isAvailable.trans ht.isAvailable.symm
  rfl

/-! ### The pending polls -/

theorem Sound.mem_values {s : PollStore} (hs : s.Sound) {p : Poll} :
    p ∈ s.pending.values ↔ s.pending.get? p.id = some p := by
  constructor
  · intro h
    obtain ⟨⟨id, q⟩, hmem, rfl⟩ := List.mem_map.1 h
    have hq := Table.mem_entries_iff.1 hmem
    rw [hs.id_of_pending hq]
    exact hq
  · intro h
    exact List.mem_map.2 ⟨(p.id, p), Table.mem_entries_iff.2 h, rfl⟩

/-- The pending polls are listed in the order of their identifiers. -/
theorem Sound.ascending_values {s : PollStore} (hs : s.Sound) :
    s.pending.values.Pairwise fun p q => p.id < q.id := by
  apply List.pairwise_map.2
  refine s.pending.ascending.imp_of_mem ?_
  intro a b ha hb hlt
  rw [hs.id_of_pending (Table.mem_entries_iff.1 ha), hs.id_of_pending (Table.mem_entries_iff.1 hb)]
  exact hlt

/-! ### The two changes -/

theorem pending_put (s : PollStore) (p : Poll) (id : TransactionId) :
    (s.put p).pending.get? id = if p.id = id then some p else s.pending.get? id :=
  Table.get?_insert ..

theorem put_of_ne (s : PollStore) {p : Poll} {id : TransactionId} (h : p.id ≠ id) :
    (s.put p).pending.get? id = s.pending.get? id ∧
      (s.put p).outcomes.get? id = s.outcomes.get? id :=
  ⟨(pending_put ..).trans (if_neg h), rfl⟩

theorem put_self (s : PollStore) (p : Poll) : (s.put p).pending.get? p.id = some p :=
  (pending_put ..).trans (if_pos rfl)

theorem pending_finish (s : PollStore) (id : TransactionId) (outcome : PollOutcome)
    (j : TransactionId) :
    (s.finish id outcome).pending.get? j = if id = j then none else s.pending.get? j :=
  Table.get?_erase ..

/-- Where a poll ends, those after it are still pending. -/
theorem pending_finish_of_above {s : PollStore} {id : TransactionId} {ps : List Poll}
    (habove : ∀ p ∈ ps, id < p.id) (hpending : ∀ p ∈ ps, s.pending.get? p.id = some p)
    (outcome : PollOutcome) :
    ∀ p ∈ ps, (s.finish id outcome).pending.get? p.id = some p := by
  intro p hp
  rw [pending_finish, if_neg (UInt64.ne_of_lt (habove p hp))]
  exact hpending p hp

theorem outcomes_finish (s : PollStore) (id : TransactionId) (outcome : PollOutcome)
    (j : TransactionId) :
    (s.finish id outcome).outcomes.get? j = if id = j then some outcome else s.outcomes.get? j :=
  Table.get?_insert ..

theorem Sound.put {s : PollStore} (hs : s.Sound) {p : Poll} (hp : s.outcomes.get? p.id = none) :
    (s.put p).Sound := by
  constructor
  case isAvailable => exact hs.isAvailable
  case id_of_pending =>
    intro id q hq
    rw [pending_put] at hq
    split at hq
    · next hid =>
      cases hq
      exact hid
    · exact hs.id_of_pending hq
  case not_ended =>
    intro id q hq
    rw [pending_put] at hq
    split at hq
    · next hid => exact hid ▸ hp
    · exact hs.not_ended hq

theorem Sound.finish {s : PollStore} (hs : s.Sound) (id : TransactionId) (outcome : PollOutcome) :
    (s.finish id outcome).Sound := by
  have hold : ∀ {j p}, (s.finish id outcome).pending.get? j = some p →
      id ≠ j ∧ s.pending.get? j = some p := by
    intro j p hp
    rw [pending_finish] at hp
    split at hp
    · cases hp
    · next hid => exact ⟨hid, hp⟩
  constructor
  case isAvailable => exact hs.isAvailable
  case id_of_pending =>
    intro j p hp
    exact hs.id_of_pending (hold hp).2
  case not_ended =>
    intro j p hp
    obtain ⟨hid, hp⟩ := hold hp
    rw [outcomes_finish, if_neg hid]
    exact hs.not_ended hp

/-! ### Requests -/

/-- A store takes a new poll just if it is not switched off and has the identifier in neither
    table. -/
theorem save_eq_ok_iff {s s' : PollStore} {p : Poll} :
    s.save p = .ok s' ↔ s.isAvailable ∧ s.pending.get? p.id = none ∧
      s.outcomes.get? p.id = none ∧ s' = s.put p := by
  obtain ⟨pending, outcomes, available⟩ := s
  simp only [← Table.contains_eq_false_iff, save, PollStore.whenAvailable, put]
  cases available with
  | false => simp
  | true =>
    cases pending.contains p.id with
    | true => simp
    | false => cases outcomes.contains p.id <;> simp [eq_comm]

theorem of_update_eq_ok {s s' : PollStore} {p : Poll} (h : s.update p = .ok s') : s' = s.put p := by
  obtain ⟨-, hupdate⟩ := of_whenAvailable_eq_ok h
  split at hupdate
  · cases hupdate
    rfl
  · cases hupdate

/-- A store hands out the poll that it is to retire, if it has one. -/
theorem retire_eq_ok_iff {s s' : PollStore} {id : TransactionId} {outcome : PollOutcome}
    {found : Option Poll} :
    s.retire id outcome = .ok (found, s') ↔ s.isAvailable ∧ s.pending.get? id = found ∧
      s' = found.elim s fun _ => s.finish id outcome := by
  constructor
  · intro h
    obtain ⟨havailable, hretire⟩ := of_whenAvailable_eq_ok h
    split at hretire
    · next hnone =>
      cases hretire
      exact ⟨havailable, hnone, rfl⟩
    · next p hpending =>
      cases hretire
      exact ⟨havailable, hpending, rfl⟩
  · rintro ⟨havailable, rfl, rfl⟩
    rw [retire, PollStore.whenAvailable, if_pos havailable]
    cases s.pending.get? id with
    | none => rfl
    | some p => rfl

/-- To reinstate a poll undoes its retirement. -/
theorem Sound.reinstate_finish {s : PollStore} (hs : s.Sound) {p : Poll} (outcome : PollOutcome)
    (hp : s.pending.get? p.id = some p) : (s.finish p.id outcome).reinstate p = .ok s := by
  have hgone : (s.finish p.id outcome).pending.contains p.id = false := by
    rw [Table.contains_eq_false_iff, pending_finish, if_pos rfl]
  unfold reinstate
  rw [(hs.finish p.id outcome).whenAvailable, hgone]
  simp only [PollStore.finish, Bool.false_eq_true, if_false, Table.insert_erase hp,
    Table.erase_insert outcome (hs.not_ended hp)]

end PollStore

end LedgerAppendix
