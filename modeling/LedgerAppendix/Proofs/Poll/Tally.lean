import LedgerAppendix.Poll
import LedgerAppendix.Proofs.Basic
import Mathlib.Algebra.Ring.Nat

/-!
# Tallies and decisions

What the votes of a poll add up to, and what is decided by it.
-/

namespace LedgerAppendix

/-!
## How polls are decided

A poll is resolved at its last height, and before it if it may end early and has its quorum. Its
votes alone give the outcome. The tally stops at the greatest number, but a quorum is no greater
than that, so the tally reaches it just if the exact sum of the weights does.
-/

/-! ### Tallies -/

theorem toNat_saturatingAdd (a b : UInt64) :
    (saturatingAdd a b).toNat = min (a.toNat + b.toNat) maxWord.toNat := by
  have hmax : maxWord.toNat = UInt64.size - 1 := by decide
  rw [hmax]
  unfold saturatingAdd
  split
  · next hfits =>
    rw [UInt64.toNat_add, Nat.mod_eq_of_lt hfits]
    omega
  · omega

theorem toNat_foldl_saturatingAdd (ws : List UInt64) (a : UInt64) :
    (ws.foldl saturatingAdd a).toNat = min (a.toNat + (ws.map UInt64.toNat).sum) maxWord.toNat := by
  have hle : ∀ b : UInt64, b.toNat ≤ maxWord.toNat := fun b => Nat.le_pred_of_lt b.toNat_lt
  induction ws generalizing a with
  | nil => exact (Nat.min_eq_left (hle a)).symm
  | cons w ws ih =>
    rw [List.foldl_cons, ih, toNat_saturatingAdd, List.map_cons, List.sum_cons]
    omega

namespace Poll

variable {p : Poll} {early : Bool} {height : UInt32}

theorem quorum_le_tally_iff :
    p.quorum ≤ p.tally ↔ p.quorum.toNat ≤ (p.votes.values.map UInt64.toNat).sum := by
  have hle : p.quorum.toNat ≤ maxWord.toNat := Nat.le_pred_of_lt p.quorum.toNat_lt
  rw [UInt64.le_iff_toNat_le, tally, toNat_foldl_saturatingAdd, UInt64.toNat_zero, Nat.zero_add]
  omega

/-! ### Decisions -/

/-- The outcome that its votes give a poll. -/
def verdict (p : Poll) : PollOutcome := if p.quorum ≤ p.tally then .approved else .rejected

/-- The poll is resolved at a height: it ends there, or it may end early and has its quorum. -/
def EndsAt (p : Poll) (early : Bool) (height : UInt32) : Prop :=
  p.maxHeight ≤ height ∨ early ∧ p.quorum ≤ p.tally

instance (p : Poll) (early : Bool) (height : UInt32) : Decidable (p.EndsAt early height) :=
  inferInstanceAs (Decidable (_ ∨ _))

theorem verdict_of_quorum (h : p.quorum ≤ p.tally) : p.verdict = .approved := if_pos h

theorem EndsAt.later {height' : UInt32} (h : p.EndsAt early height) (hle : height ≤ height') :
    p.EndsAt early height' :=
  h.imp_left fun hdue => UInt32.le_trans hdue hle

/-- What is due at its last height is due early as well. -/
theorem EndsAt.early_of_late (h : p.EndsAt false height) : p.EndsAt true height :=
  h.imp_right fun hquorum => ⟨rfl, hquorum.2⟩

/-- Without its quorum, a poll is due at its last height only. -/
theorem EndsAt.late_of_early (h : p.EndsAt true height) (hquorum : ¬p.quorum ≤ p.tally) :
    p.EndsAt false height :=
  .inl (h.resolve_right fun hearly => hquorum hearly.2)

theorem decision?_of_endsAt (h : p.EndsAt early height) :
    p.decision? early height = some p.verdict := by
  by_cases hdue : p.maxHeight ≤ height
  · simp [decision?, isDue, hdue, isApproved, verdict]
  · obtain ⟨hearly, hquorum⟩ := h.resolve_left hdue
    simp [decision?, isDue, hdue, isApproved, verdict, hearly, hquorum]

theorem decision?_of_not_endsAt (h : ¬p.EndsAt early height) : p.decision? early height = none := by
  obtain ⟨hdue, hquorum⟩ := not_or.1 h
  simpa [decision?, isDue, hdue, isApproved] using hquorum

theorem decision?_eq_none_iff : p.decision? early height = none ↔ ¬p.EndsAt early height := by
  refine ⟨fun h hend => ?_, decision?_of_not_endsAt⟩
  rw [decision?_of_endsAt hend] at h
  cases h

/-- A poll that is resolved ends there, by its verdict. -/
theorem decision?_eq_some_iff {outcome : PollOutcome} :
    p.decision? early height = some outcome ↔ p.EndsAt early height ∧ outcome = p.verdict := by
  by_cases hend : p.EndsAt early height
  · rw [decision?_of_endsAt hend, Option.some.injEq, eq_comm]
    exact (and_iff_right hend).symm
  · rw [decision?_of_not_endsAt hend]
    exact ⟨nofun, fun h => absurd h.1 hend⟩

/-- A poll is approved by its quorum only, and it is rejected at its last height only, where the
    votes fall short of the quorum. -/
theorem of_decision? {outcome : PollOutcome} (h : p.decision? early height = some outcome) :
    (outcome = .approved → p.quorum ≤ p.tally) ∧
      (outcome = .rejected → p.maxHeight ≤ height ∧ ¬p.quorum ≤ p.tally) := by
  obtain ⟨hend, rfl⟩ := decision?_eq_some_iff.1 h
  unfold verdict
  split
  · next hquorum => exact ⟨fun _ => hquorum, nofun⟩
  · next hshort =>
    exact ⟨nofun, fun _ => ⟨hend.resolve_right fun hearly => hshort hearly.2, hshort⟩⟩

end Poll

/-!
## What a tally says

A tally is added up vote by vote and stays at the greatest number once it gets there. It is a
function of the exact sum all the same (`toNat_tally`), and so it depends neither on the order of
the votes nor on where it was cut off. As a quorum is a number too, the cut costs no decision: a
poll is approved just if the exact sum reaches its quorum, be that the greatest number itself, and
one vote more cannot undo it.
-/

/-- However many weights were added before the greatest number was reached, adding up the same
    weights in another order comes to the same. -/
theorem foldl_saturatingAdd_perm {ws ws' : List UInt64} (h : ws.Perm ws') (start : UInt64) :
    ws.foldl saturatingAdd start = ws'.foldl saturatingAdd start := by
  apply UInt64.toNat_inj.1
  simp only [toNat_foldl_saturatingAdd, (h.map UInt64.toNat).sum_nat]

namespace Poll

variable {p : Poll} {voter : AccountId}

/-- The tally is the exact sum of the weights, as far as there are numbers for it. -/
theorem toNat_tally (p : Poll) :
    p.tally.toNat = min (2 ^ 64 - 1) (p.votes.values.map UInt64.toNat).sum := by
  have hmax : maxWord.toNat = 2 ^ 64 - 1 := by decide
  simp only [tally, toNat_foldl_saturatingAdd, hmax, UInt64.toNat_zero, Nat.zero_add, Nat.min_comm]

theorem isApproved_iff :
    p.isApproved ↔ p.quorum.toNat ≤ (p.votes.values.map UInt64.toNat).sum := by
  simp only [isApproved, decide_eq_true_eq, quorum_le_tally_iff]

/-! ### One vote more -/

/-- A vote adds its weight to the weights that were there. -/
theorem sum_weights_vote (weight : UInt64) (hnew : p.votes.get? voter = none) :
    ((p.vote voter weight).votes.values.map UInt64.toNat).sum =
      weight.toNat + (p.votes.values.map UInt64.toNat).sum :=
  ((Table.perm_values_insert weight hnew).map UInt64.toNat).sum_nat

theorem tally_le_tally_vote (weight : UInt64) (hnew : p.votes.get? voter = none) :
    p.tally ≤ (p.vote voter weight).tally := by
  rw [UInt64.le_iff_toNat_le, toNat_tally, toNat_tally, sum_weights_vote weight hnew]
  omega

/-- A poll that has its quorum has it with one vote more. -/
theorem quorum_le_tally_vote (weight : UInt64) (hnew : p.votes.get? voter = none)
    (hquorum : p.quorum ≤ p.tally) :
    (p.vote voter weight).quorum ≤ (p.vote voter weight).tally :=
  UInt64.le_trans hquorum (tally_le_tally_vote weight hnew)

/-- The tally is the exact sum of the weights, up to the greatest number, in whatever order the
    votes are added up. So a poll is approved just if the exact sum reaches its quorum; and a vote
    of an account that has not voted adds its weight, lowers no tally and undoes no approval. -/
theorem tally_exact (p : Poll) :
    p.tally.toNat = min (2 ^ 64 - 1) (p.votes.values.map UInt64.toNat).sum ∧
    (∀ ws : List UInt64, ws.Perm p.votes.values → ws.foldl saturatingAdd 0 = p.tally) ∧
    (p.isApproved ↔ p.quorum.toNat ≤ (p.votes.values.map UInt64.toNat).sum) ∧
    ∀ (voter : AccountId) (weight : UInt64), p.votes.get? voter = none →
      (p.vote voter weight).tally.toNat =
        min (2 ^ 64 - 1) (weight.toNat + (p.votes.values.map UInt64.toNat).sum) ∧
      p.tally ≤ (p.vote voter weight).tally ∧
      (p.isApproved → (p.vote voter weight).isApproved) := by
  refine ⟨p.toNat_tally, ?_, isApproved_iff, ?_⟩
  · -- any order
    intro ws hws
    exact foldl_saturatingAdd_perm hws 0
  · -- one more vote
    intro voter weight hnew
    refine ⟨?_, tally_le_tally_vote weight hnew, ?_⟩
    · rw [toNat_tally, sum_weights_vote weight hnew]
    · simp only [isApproved, decide_eq_true_eq]
      exact quorum_le_tally_vote weight hnew

/-- A poll with the greatest quorum there is, on which the second of two votes was already too much
    for the tally. -/
def overfullPoll : Poll :=
  { ofTransaction ⟨7, 1, .ordinaryPayment, 1, some 2, 10, 100⟩ ⟨1, 200, maxWord, 1, .balance, []⟩
    with votes := (Table.empty.insert 3 (maxWord - 4)).insert 5 9 }

/-- Added up in the other order, the votes come to the same, and a third one leaves the poll
    approved. -/
theorem tally_exact_overfull :
    [9, maxWord - 4].Perm overfullPoll.votes.values ∧ overfullPoll.votes.get? 4 = none ∧
      [9, maxWord - 4].foldl saturatingAdd 0 = overfullPoll.tally ∧
      overfullPoll.tally.toNat = 2 ^ 64 - 1 ∧ (overfullPoll.vote 4 1).isApproved := by
  have hperm : [9, maxWord - 4].Perm overfullPoll.votes.values := .swap ..
  have hnew : overfullPoll.votes.get? 4 = none := rfl
  obtain ⟨htally, horder, happroved, hvote⟩ := tally_exact overfullPoll
  obtain ⟨-, -, hkept⟩ := hvote 4 1 hnew
  exact ⟨hperm, hnew, horder _ hperm, htally.trans (by decide),
    hkept (happroved.2 (by decide))⟩

end Poll

end LedgerAppendix
