import LedgerAppendix.Appendix.Basic
import Mathlib.Data.List.Basic

/-!
# Sets of appendices and their words of flags

A set of appendices, its list in wire order and the word of flags that goes with it say the same
thing about which kinds are present. `namedBy_flagsOf` and `flagsOf_namedBy` lead from kinds to
flags and back; a word with a bit that stands for no kind is the only one that is not reached.
`ofList_toList` and `toList_ofList` do the same for sets and lists in wire order.
-/

namespace LedgerAppendix

/-! ### Words of flags -/

namespace Kind

theorem or_and_distrib (a b c : UInt32) : (a ||| b) &&& c = (a &&& c) ||| (b &&& c) := by
  apply UInt32.toBitVec_inj.1
  exact BitVec.and_or_distrib_right

theorem isNamedBy_or (k : Kind) (a b : UInt32) :
    k.isNamedBy (a ||| b) = (k.isNamedBy a || k.isNamedBy b) := by
  unfold isNamedBy
  rw [or_and_distrib, Bool.eq_iff_iff]
  simp only [bne_iff_ne, Bool.or_eq_true, ne_eq, UInt32.or_eq_zero_iff,
    Classical.not_and_iff_not_or_not]

theorem isNamedBy_flag (k j : Kind) : k.isNamedBy j.flag = decide (j = k) := by
  cases k <;> cases j <;> decide

/-- The word of some kinds names those kinds and no other. -/
theorem isNamedBy_flagsOf (k : Kind) (ks : List Kind) :
    k.isNamedBy (flagsOf ks) = decide (k ∈ ks) := by
  -- the fold starts at some word, so the word has to be any for the induction
  have hfold : ∀ (ks : List Kind) (start : UInt32),
      k.isNamedBy (ks.foldl (fun flags j => flags ||| j.flag) start) =
        (k.isNamedBy start || decide (k ∈ ks)) := by
    intro ks
    induction ks with
    | nil => simp
    | cons j ks ih =>
      intro start
      rw [List.foldl_cons, ih, isNamedBy_or, isNamedBy_flag, Bool.or_assoc, ← Bool.decide_or]
      simp only [List.mem_cons, eq_comm]
  have hzero : k.isNamedBy 0 = false := by
    cases k <;> decide
  rw [flagsOf, hfold, hzero, Bool.false_or]

theorem mem_all (k : Kind) : k ∈ all := by
  cases k <;> decide

theorem namedBy_flagsOf (p : Kind → Bool) : namedBy (flagsOf (all.filter p)) = all.filter p := by
  refine List.filter_congr fun k hk => ?_
  rw [isNamedBy_flagsOf]
  simp [hk]

theorem unknownFlags_flagsOf (ks : List Kind) : unknownFlags (flagsOf ks) = 0 := by
  have hfold : ∀ (ks : List Kind) (start : UInt32), unknownFlags start = 0 →
      unknownFlags (ks.foldl (fun flags j => flags ||| j.flag) start) = 0 := by
    intro ks
    induction ks with
    | nil => exact fun _ h => h
    | cons j ks ih =>
      intro start hstart
      have hj : unknownFlags j.flag = 0 := by
        cases j <;> decide
      refine ih _ ?_
      unfold unknownFlags at *
      rw [or_and_distrib, hstart, hj]
      rfl
  exact hfold ks 0 (by decide)

/-- A word without unknown bits is the word of the kinds that it names. -/
theorem flagsOf_namedBy {flags : UInt32} (h : unknownFlags flags = 0) :
    flagsOf (namedBy flags) = flags := by
  have hall : flagsOf all = 31 := by decide
  have hmask : flags = flags &&& 31 := by
    have hsplit := or_and_distrib 31 (~~~31) flags
    rw [UInt32.or_not_self, UInt32.neg_one_and, UInt32.and_comm (~~~31), ← hall] at hsplit
    rw [unknownFlags] at h
    rw [h, UInt32.or_zero, hall, UInt32.and_comm] at hsplit
    exact hsplit
  have hsmall : flags.toNat < 32 := by
    rw [hmask, UInt32.toNat_and]
    exact Nat.lt_succ_of_le Nat.and_le_right
  have hwords : ∀ i : Fin 32, flagsOf (namedBy (UInt32.ofNat i)) = UInt32.ofNat i := by decide
  have hflags := hwords ⟨flags.toNat, hsmall⟩
  rwa [UInt32.ofNat_toNat] at hflags

end Kind

/-! ### Sets and lists -/

namespace AppendixSet

/-- Sets that hold the same of every kind are equal. -/
theorem ext_get? {s t : AppendixSet} (h : ∀ k, s.get? k = t.get? k) : s = t := by
  have hmessage : s.message = t.message :=
    (Option.map_inj_right fun _ _ => Appendix.message.inj).1 (h .message)
  have hencrypted : s.encryptedMessage = t.encryptedMessage :=
    (Option.map_inj_right fun _ _ => Appendix.encryptedMessage.inj).1 (h .encryptedMessage)
  have hannouncement : s.announcement = t.announcement :=
    (Option.map_inj_right fun _ _ => Appendix.announcement.inj).1 (h .announcement)
  have htoSelf : s.encryptToSelf = t.encryptToSelf :=
    (Option.map_inj_right fun _ _ => Appendix.encryptToSelf.inj).1 (h .encryptToSelf)
  have hphasing : s.phasing = t.phasing :=
    (Option.map_inj_right fun _ _ => Appendix.phasing.inj).1 (h .phasing)
  cases s
  cases t
  simp_all

theorem mem_toList {s : AppendixSet} {a : Appendix} : a ∈ s.toList ↔ s.get? a.kind = some a := by
  rw [toList, List.mem_filterMap]
  constructor
  · rintro ⟨k, _, hk⟩
    rwa [kind_of_get? hk]
  · intro h
    exact ⟨a.kind, Kind.mem_all _, h⟩

theorem mem_toList_announcement {s : AppendixSet} {a : Announcement} :
    .announcement a ∈ s.toList ↔ s.announcement = some a := by
  rw [mem_toList]
  exact ⟨fun h => by simpa [get?, Appendix.kind] using h, fun h => congrArg (Option.map _) h⟩

theorem mem_toList_phasing {s : AppendixSet} {p : Phasing} :
    .phasing p ∈ s.toList ↔ s.phasing = some p := by
  rw [mem_toList]
  exact ⟨fun h => by simpa [get?, Appendix.kind] using h, fun h => congrArg (Option.map _) h⟩

theorem map_kind_toList (s : AppendixSet) :
    s.toList.map Appendix.kind = Kind.all.filter fun k => (s.get? k).isSome := by
  have hkinds : ∀ ks : List Kind, (ks.filterMap s.get?).map Appendix.kind =
      ks.filter fun k => (s.get? k).isSome := by
    intro ks
    induction ks with
    | nil => rfl
    | cons k ks ih =>
      cases hk : s.get? k with
      | none => simp [hk, ih]
      | some a => simp [hk, ih, kind_of_get? hk]
  exact hkinds Kind.all

/-- The appendices are listed in wire order. -/
theorem pairwise_toList (s : AppendixSet) :
    s.toList.Pairwise fun a b => a.kind.rank < b.kind.rank := by
  have hall : Kind.all.Pairwise fun j k => j.rank < k.rank := by decide
  have hkinds : (s.toList.map Appendix.kind).Pairwise fun j k => j.rank < k.rank := by
    rw [map_kind_toList]
    exact hall.filter _
  exact hkinds.of_map Appendix.kind fun _ _ h => h

/-- The last appendix of a kind in a list. -/
def lastOf (as : List Appendix) (k : Kind) : Option Appendix :=
  as.reverse.find? fun a => a.kind = k

theorem lastOf_cons (a : Appendix) (as : List Appendix) (k : Kind) :
    lastOf (a :: as) k = (lastOf as k).or (if a.kind = k then some a else none) := by
  rw [lastOf, List.reverse_cons, List.find?_append, lastOf]
  by_cases ha : a.kind = k <;> simp [ha]

theorem lastOf_eq_some {as : List Appendix} {k : Kind} {a : Appendix} (h : lastOf as k = some a) :
    a ∈ as ∧ a.kind = k :=
  ⟨List.mem_reverse.1 (List.mem_of_find?_eq_some h), by simpa using List.find?_some h⟩

theorem lastOf_eq_none_iff {as : List Appendix} {k : Kind} :
    lastOf as k = none ↔ k ∉ as.map Appendix.kind := by
  simp [lastOf]

/-- A set made from a list holds the last one of each kind. -/
theorem get?_ofList (as : List Appendix) (k : Kind) : (ofList as).get? k = lastOf as k := by
  have hfold : ∀ (as : List Appendix) (s : AppendixSet),
      (as.foldl insert s).get? k = (lastOf as k).or (s.get? k) := by
    intro as
    induction as with
    | nil => simp [lastOf]
    | cons a as ih =>
      intro s
      rw [List.foldl_cons, ih, get?_insert, lastOf_cons, Option.or_assoc]
      by_cases ha : a.kind = k <;> simp [ha]
  rw [ofList, hfold, get?_empty, Option.or_none]

/-- A list of one appendix at most for each kind makes a set of these. -/
theorem get?_ofList_filterMap {held : Kind → Option Appendix}
    (hheld : ∀ k a, held k = some a → a.kind = k) (k : Kind) :
    (ofList (Kind.all.filterMap held)).get? k = held k := by
  rw [get?_ofList]
  cases hlast : lastOf (Kind.all.filterMap held) k with
  | some a =>
    obtain ⟨hmem, rfl⟩ := lastOf_eq_some hlast
    obtain ⟨j, -, hj⟩ := List.mem_filterMap.1 hmem
    rw [hheld j a hj, hj]
  | none =>
    rw [lastOf_eq_none_iff] at hlast
    cases hk : held k with
    | none => rfl
    | some a =>
      have hmem : a ∈ Kind.all.filterMap held := List.mem_filterMap.2 ⟨k, Kind.mem_all k, hk⟩
      exact absurd (List.mem_map.2 ⟨a, hmem, hheld k a hk⟩) hlast

theorem ofList_toList (s : AppendixSet) : ofList s.toList = s :=
  ext_get? (get?_ofList_filterMap fun _ _ => kind_of_get?)

/-- The kinds of a list that is in wire order find its elements one by one. -/
theorem filterMap_lastOf {p : Kind → Bool} (ks : List Kind) (hnodup : ks.Nodup) :
    ∀ as : List Appendix, as.map Appendix.kind = ks.filter p → ks.filterMap (lastOf as) = as := by
  induction ks with
  | nil =>
    intro as has
    exact (List.map_eq_nil_iff.1 has).symm
  | cons k ks ih =>
    intro as has
    obtain ⟨hk, hks⟩ := List.nodup_cons.1 hnodup
    -- a list of later kinds only has nothing of this one
    have hlater : ∀ as : List Appendix, as.map Appendix.kind = ks.filter p →
        lastOf as k = none := by
      intro as has
      rw [lastOf_eq_none_iff, has]
      exact fun hmem => hk (List.mem_filter.1 hmem).1
    cases hp : p k with
    | false =>
      rw [List.filter_cons_of_neg (by simp [hp])] at has
      rw [List.filterMap_cons_none (hlater as has)]
      exact ih hks as has
    | true =>
      rw [List.filter_cons_of_pos hp] at has
      obtain ⟨a, rest, rfl, rfl, hrest⟩ := List.map_eq_cons_iff.1 has
      have hfirst : lastOf (a :: rest) a.kind = some a := by
        rw [lastOf_cons, hlater rest hrest, if_pos rfl]
        rfl
      have hothers : ∀ j ∈ ks, lastOf (a :: rest) j = lastOf rest j := by
        intro j hj
        have hne : a.kind ≠ j := fun e => hk (e ▸ hj)
        rw [lastOf_cons, if_neg hne, Option.or_none]
      rw [List.filterMap_cons_some hfirst, List.filterMap_congr hothers, ih hks rest hrest]

/-- A list in wire order is the list of the set made from it. -/
theorem toList_ofList {as : List Appendix} {p : Kind → Bool}
    (h : as.map Appendix.kind = Kind.all.filter p) : (ofList as).toList = as := by
  have hget : (ofList as).get? = lastOf as := funext (get?_ofList as)
  rw [toList, hget]
  exact filterMap_lastOf Kind.all (by decide) as h

theorem namedBy_flags (s : AppendixSet) : Kind.namedBy s.flags = s.toList.map Appendix.kind := by
  rw [flags, map_kind_toList, Kind.namedBy_flagsOf]

theorem unknownFlags_flags (s : AppendixSet) : Kind.unknownFlags s.flags = 0 :=
  Kind.unknownFlags_flagsOf _

end AppendixSet

end LedgerAppendix
