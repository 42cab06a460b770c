import LedgerAppendix.Appendix.Admission
import LedgerAppendix.Attachment
import LedgerAppendix.Node.Call
import LedgerAppendix.Proofs.Appendix.Set
import LedgerAppendix.Wire
import Mathlib.Logic.Equiv.Fin.Basic

/-!
# Sets as collections

Of the appendices that are put into a set, it keeps the last one of each kind (`IsLast`), so the
order in which the kinds come is lost. Two lists make the same set if and only if they have the same
last ones (`ofList_eq_iff`). A list that is put into another order has them still, as long as no
appendix overtakes one of its own kind (`Reorders`): whoever collects the same attachments writes
the same bytes.
-/

namespace LedgerAppendix

/-- An appendix stands in a list, and no other one of its kind stands behind it. -/
def IsLast (as : List Appendix) (k : Kind) (a : Appendix) : Prop :=
  ∃ i : Fin as.length, as[i] = a ∧ a.kind = k ∧ ∀ j : Fin as.length, i < j → as[j].kind ≠ k

/-- The second list is the first one in another order. Every appendix of the first one has its place
    in the second one, and no two of one kind change their order. -/
def Reorders (as bs : List Appendix) : Prop :=
  ∃ place : Fin as.length ≃ Fin bs.length, (∀ i, bs[place i] = as[i]) ∧
    ∀ i j, i < j → as[i].kind = as[j].kind → place i < place j

/-- What was put into another order can be put back. -/
theorem Reorders.symm {as bs : List Appendix} (h : Reorders as bs) : Reorders bs as := by
  obtain ⟨place, hmoved, hkept⟩ := h
  have hback : ∀ p, as[place.symm p] = bs[p] := by
    intro p
    have hthere := hmoved (place.symm p)
    simp only [Equiv.apply_symm_apply] at hthere
    exact hthere.symm
  refine ⟨place.symm, hback, fun p q hlt hkind => ?_⟩
  rw [← hback, ← hback] at hkind
  rcases lt_trichotomy (place.symm p) (place.symm q) with hbefore | hsame | hafter
  · exact hbefore
  · exact absurd (place.symm.injective hsame) hlt.ne
  · have hturned := hkept _ _ hafter hkind.symm
    rw [Equiv.apply_symm_apply, Equiv.apply_symm_apply] at hturned
    exact absurd hturned hlt.asymm

/-- What is the last one of its kind stays so. -/
theorem Reorders.isLast {as bs : List Appendix} (h : Reorders as bs) {k : Kind} {a : Appendix}
    (hlast : IsLast as k a) : IsLast bs k a := by
  obtain ⟨place, hmoved, hkept⟩ := h
  obtain ⟨i, rfl, hkind, hlater⟩ := hlast
  refine ⟨place i, hmoved i, hkind, fun q hq hqkind => ?_⟩
  obtain ⟨j, rfl⟩ := place.surjective q
  rw [hmoved] at hqkind
  rcases lt_trichotomy i j with hbefore | rfl | hafter
  · exact hlater j hbefore hqkind
  · exact hq.false
  · have hturned := hkept j i hafter (hqkind.trans hkind.symm)
    exact hq.asymm hturned

namespace AppendixSet

/-! ### The last one of a kind -/

theorem lastOf_eq_some_iff {as : List Appendix} {k : Kind} {a : Appendix} :
    lastOf as k = some a ↔ IsLast as k a := by
  rw [lastOf, List.find?_eq_some_iff_getElem]
  -- a place counted from the end is the same place counted from the front
  have hplace : ∀ i < as.length, as.length - 1 - (as.length - 1 - i) = i := by omega
  constructor
  · rintro ⟨hkind, i, hi, rfl, hlater⟩
    rw [List.length_reverse] at hi
    refine ⟨⟨as.length - 1 - i, by omega⟩, (List.getElem_reverse _).symm, by simpa using hkind,
      fun j hij => ?_⟩
    have hj : as.length - 1 - j < i := by
      have hij' : as.length - 1 - i < j := hij
      omega
    simpa [List.getElem_reverse, hplace j j.isLt] using hlater (as.length - 1 - j) hj
  · rintro ⟨i, rfl, hkind, hlater⟩
    have hi : as.length - 1 - i < as.reverse.length := by
      rw [List.length_reverse]
      omega
    refine ⟨by simpa using hkind, as.length - 1 - i, hi, ?_, fun j hj => ?_⟩
    · simp [List.getElem_reverse, hplace i i.isLt]
    · have hij : i < (⟨as.length - 1 - j, by omega⟩ : Fin as.length) :=
        Fin.lt_def.2 (Nat.lt_sub_of_add_lt (by omega))
      rw [List.getElem_reverse]
      simpa using hlater _ hij

theorem lastOf_of_reorders {as bs : List Appendix} (h : Reorders as bs) (k : Kind) :
    lastOf bs k = lastOf as k := by
  apply Option.ext
  intro a
  rw [lastOf_eq_some_iff, lastOf_eq_some_iff]
  exact ⟨h.symm.isLast, h.isLast⟩

theorem get?_ofList_eq_some_iff {as : List Appendix} {k : Kind} {a : Appendix} :
    (ofList as).get? k = some a ↔ IsLast as k a := by
  rw [get?_ofList, lastOf_eq_some_iff]

theorem mem_toList_ofList {as : List Appendix} {a : Appendix} :
    a ∈ (ofList as).toList ↔ IsLast as a.kind a := by
  rw [mem_toList, get?_ofList_eq_some_iff]

/-- A set depends on the last appendix of each kind and on nothing else. -/
theorem ofList_eq_iff {as bs : List Appendix} :
    ofList bs = ofList as ↔ ∀ k, lastOf bs k = lastOf as k := by
  constructor
  · intro h k
    rw [← get?_ofList, h, get?_ofList]
  · intro h
    apply ext_get?
    intro k
    rw [get?_ofList, get?_ofList, h]

/-- The flags of a collected set name the kinds that occur in the list. -/
theorem isNamedBy_flags_ofList (as : List Appendix) (k : Kind) :
    k.isNamedBy (ofList as).flags = true ↔ ∃ a ∈ as, a.kind = k := by
  rw [flags, Kind.isNamedBy_flagsOf, map_kind_toList, decide_eq_true_iff, List.mem_filter,
    get?_ofList, Option.isSome_iff_ne_none, Ne, lastOf_eq_none_iff, not_not, List.mem_map]
  exact and_iff_right (Kind.mem_all k)

/-! ### One by one -/

theorem ofList_concat (as : List Appendix) (a : Appendix) :
    ofList (as ++ [a]) = (ofList as).insert a := by
  rw [ofList, List.foldl_append]
  rfl

/-- Put into a set one by one, each appendix replaces the one of its kind that was the last so
    far. -/
theorem replaceEach_ofList (before as : List Appendix) :
    (ofList before).replaceEach as =
      (as.mapIdx fun i a => lastOf (before ++ as.take i) a.kind, ofList (before ++ as)) := by
  induction as generalizing before with
  | nil => simp [replaceEach]
  | cons a as ih =>
    have hfirst : (ofList before).replace a = (lastOf before a.kind, ofList (before ++ [a])) := by
      rw [replace, get?_ofList, ofList_concat]
    simp only [replaceEach, hfirst, ih, List.mapIdx_cons, List.take_zero, List.take_succ_cons,
      List.append_nil, List.append_assoc, List.singleton_append]

/-! ### Any list -/

/-- Of any list of appendices, the set that is made from it holds the last one of each kind, listed
    in wire order, and has the flags of the kinds that occur. Put in one by one, each appendix
    replaces the last one of its kind among those before it. A list with the same last ones makes
    the same set. One that has the appendices in another order, in which those of one kind keep
    theirs, does so, and none of what is made of the set tells the two lists apart. -/
theorem ofList_keeps_last (as : List Appendix) :
    (∀ k a, (ofList as).get? k = some a ↔ IsLast as k a) ∧
    empty.replaceEach as = (as.mapIdx fun i a => lastOf (as.take i) a.kind, ofList as) ∧
    (∀ a, a ∈ (ofList as).toList ↔ IsLast as a.kind a) ∧
    ((ofList as).toList.Pairwise fun a b => a.kind.rank < b.kind.rank) ∧
    (∀ k, k.isNamedBy (ofList as).flags ↔ ∃ a ∈ as, a.kind = k) ∧
    Kind.unknownFlags (ofList as).flags = 0 ∧
    (∀ bs, ofList bs = ofList as ↔ ∀ k, lastOf bs k = lastOf as k) ∧
    ∀ bs, Reorders as bs →
      ofList bs = ofList as ∧
      (ofList bs).flags = (ofList as).flags ∧
      (ofList bs).toBytes = (ofList as).toBytes ∧
      (ofList bs).toObject = (ofList as).toObject ∧
      (∀ tx limits keys,
        (ofList bs).validate tx limits keys = (ofList as).validate tx limits keys) ∧
      ∀ (n : Node) (faults : Faults) (tx : Transaction),
        n.apply faults tx (ofList bs) = n.apply faults tx (ofList as) := by
  refine ⟨fun _ _ => get?_ofList_eq_some_iff, replaceEach_ofList [] as,
    fun _ => mem_toList_ofList, pairwise_toList _, isNamedBy_flags_ofList as,
    unknownFlags_flags _, fun _ => ofList_eq_iff, fun bs h => ?_⟩
  have hset : ofList bs = ofList as := ofList_eq_iff.2 (lastOf_of_reorders h)
  rw [hset]
  exact ⟨rfl, rfl, rfl, rfl, fun _ _ _ => rfl, fun _ _ _ => rfl⟩

/-- Two drafts of a message and of a poll, and a message to the sender. -/
def drafts : List Appendix :=
  [.message ⟨1, [104], true⟩, .phasing ⟨1, 200, 1, 0, .account, []⟩, .message ⟨1, [105], true⟩,
    .encryptToSelf ⟨1, [], [], false⟩, .phasing ⟨1, 300, 1, 0, .account, []⟩]

/-- The same, but each draft of the poll comes before that of the message. -/
def draftsReordered : List Appendix :=
  [.phasing ⟨1, 200, 1, 0, .account, []⟩, .message ⟨1, [104], true⟩,
    .encryptToSelf ⟨1, [], [], false⟩, .phasing ⟨1, 300, 1, 0, .account, []⟩,
    .message ⟨1, [105], true⟩]

/-- Each second draft replaces the first one, in either order. -/
theorem ofList_keeps_last_drafts :
    Reorders drafts draftsReordered ∧
      (ofList draftsReordered).toBytes = (ofList drafts).toBytes ∧
      (empty.replaceEach drafts).1 = [none, none, drafts[0]?, none, drafts[1]?] ∧
      (ofList drafts).get? .phasing = drafts[4]? ∧
      Kind.message.isNamedBy (ofList drafts).flags ∧
      ¬Kind.announcement.isNamedBy (ofList drafts).flags := by
  let place : Fin 5 ≃ Fin 5 :=
    { toFun := ![1, 0, 4, 2, 3]
      invFun := ![1, 0, 3, 4, 2]
      left_inv := by unfold Function.LeftInverse; decide
      right_inv := by unfold Function.RightInverse Function.LeftInverse; decide }
  have hreorders : Reorders drafts draftsReordered := ⟨place, by decide, by decide⟩
  obtain ⟨hlast, hreplaced, -, -, hflags, -, -, hreordered⟩ := ofList_keeps_last drafts
  obtain ⟨-, -, hbytes, -, -, -⟩ := hreordered _ hreorders
  refine ⟨hreorders, hbytes, ?_, ?_, ?_, ?_⟩
  · rw [hreplaced]
    decide
  · exact (hlast _ _).2 ⟨(4 : Fin 5), rfl, rfl, by decide⟩
  · exact (hflags _).2 ⟨_, List.mem_cons_self, rfl⟩
  · rw [hflags]
    decide

end AppendixSet

end LedgerAppendix
