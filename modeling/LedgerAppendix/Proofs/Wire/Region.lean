import LedgerAppendix.Proofs.Appendix.Set
import LedgerAppendix.Proofs.Wire.Appendix
import LedgerAppendix.Wire

/-!
# Regions are read exactly

`reads_decodeFrom` says for a whole appendix region what `Proofs.Wire.Appendix` says for its
parts: under a word of flags exactly the spellings of the valid sets with those flags are read.
The last two of the main statements are halves of it.

* `write_appends`: a region is written at the length that its size says, valid or not.
* `decode_toBytes`: a set comes back from the wire, out of the middle of any stream, if and only
  if it is valid there.
* `decode_canonical`: what was read spells the bytes that it was read from, so no set has two
  encodings.
-/

namespace LedgerAppendix.AppendixSet

open Decoder

/-- Every appendix of the set comes back from the wire. -/
def WireValid (s : AppendixSet) (transactionVersion : UInt8) (limits : Limits) : Prop :=
  ∀ a ∈ s.toList, a.WireValid transactionVersion limits

instance (s : AppendixSet) (transactionVersion : UInt8) (limits : Limits) :
    Decidable (s.WireValid transactionVersion limits) :=
  inferInstanceAs (Decidable (∀ a ∈ s.toList, a.WireValid transactionVersion limits))

/-! ### Bytes of a set -/

theorem bytes_write (s : AppendixSet) (w : Buffer) :
    (s.write w).bytes = w.bytes ++ s.toList.flatMap Appendix.spelling := by
  have hfold : ∀ (as : List Appendix) (w : Buffer),
      (as.foldl (fun w a => a.write w) w).bytes = w.bytes ++ as.flatMap Appendix.spelling := by
    intro as
    induction as with
    | nil => simp
    | cons a as ih =>
      intro w
      rw [List.foldl_cons, ih, Appendix.bytes_write, List.flatMap_cons, List.append_assoc]
  exact hfold s.toList w

theorem toBytes_eq (s : AppendixSet) : s.toBytes = s.toList.flatMap Appendix.spelling :=
  s.bytes_write .empty

theorem length_toBytes (s : AppendixSet) : s.toBytes.length = s.byteSize := by
  rw [toBytes_eq, byteSize, List.length_flatMap]
  exact congrArg List.sum (List.map_congr_left fun a _ => a.length_spelling)

/-- Whatever an appendix holds, writing it leaves what the buffer held and appends its bytes, as
    many as its size says. What a set writes are the bytes of its appendices, which are listed in
    wire order, one after the other. -/
theorem write_appends :
    (∀ (a : Appendix) (w : Buffer),
      (a.write w).bytes = w.bytes ++ a.toBytes ∧ a.toBytes.length = a.size) ∧
    ∀ (s : AppendixSet) (w : Buffer),
      (s.write w).bytes = w.bytes ++ s.toBytes ∧ s.toBytes.length = s.byteSize ∧
        s.toBytes = (s.toList.map Appendix.toBytes).flatten ∧
        s.byteSize = (s.toList.map Appendix.size).sum ∧
        (∀ a, a ∈ s.toList ↔ s.get? a.kind = some a) ∧
        s.toList.Pairwise fun a b => a.kind.rank < b.kind.rank := by
  constructor
  · intro a w
    rw [Appendix.bytes_write, Appendix.toBytes_eq, Appendix.length_spelling]
    exact ⟨rfl, rfl⟩
  · intro s w
    refine ⟨?_, s.length_toBytes, ?_, rfl, fun _ => mem_toList, s.pairwise_toList⟩
    · rw [bytes_write, toBytes_eq]
    · rw [toBytes_eq, List.flatMap]
      exact congrArg List.flatten (List.map_congr_left fun a _ => a.toBytes_eq.symm)

/-- The count of 256 voters is written as zero, in a byte all the same. -/
example : (Appendix.phasing ⟨1, 200, 1, 0, .asset 7, List.replicate 256 3⟩).toBytes.length =
    1 + 4 + 8 + 8 + 1 + 8 + 1 + 8 * 256 := by decide +kernel

/-! ### Reading a set -/

theorem reads_decodeKinds (transactionVersion : UInt8) (limits : Limits) (kinds : List Kind) :
    Reads (decodeKinds transactionVersion limits kinds) (fun as => as.flatMap Appendix.spelling)
      fun as => as.map Appendix.kind = kinds ∧ ∀ a ∈ as, a.WireValid transactionVersion limits := by
  induction kinds with
  | nil =>
    refine (Reads.pure []).congr (fun as => ?_) (by rintro as rfl; rfl)
    cases as <;> simp
  | cons kind kinds ih =>
    refine ((Appendix.reads_decode kind transactionVersion limits).cons ih).congr
      (fun as => ?_) fun _ _ => rfl
    cases as with
    | nil => simp
    | cons a as => simp [and_assoc, and_left_comm]

/-- Under a word of flags exactly the spellings of the valid sets with those flags are read. -/
theorem reads_decodeFrom (flags : UInt32) (transactionVersion : UInt8) (limits : Limits) :
    Reads (decodeFrom flags transactionVersion limits) toBytes fun s =>
      s.flags = flags ∧ s.WireValid transactionVersion limits := by
  unfold decodeFrom
  split
  · next hknown =>
    -- known flags: the kinds that they name are read one after the other
    have hbind := Reads.bind toList
      (reads_decodeKinds transactionVersion limits (Kind.namedBy flags))
      (fun as _ => Reads.pure (ofList as)) (by rintro as _ has rfl; exact toList_ofList has.1)
    refine hbind.congr (fun s => ?_) fun s _ => by rw [List.append_nil, toBytes_eq]
    constructor
    · rintro ⟨⟨hkinds, hvalid⟩, -⟩
      exact ⟨by rw [AppendixSet.flags, hkinds, Kind.flagsOf_namedBy hknown], hvalid⟩
    · rintro ⟨rfl, hvalid⟩
      exact ⟨⟨s.namedBy_flags.symm, hvalid⟩, s.ofList_toList.symm⟩
  · next hunknown =>
    -- unknown flags: no set has them
    refine (Reads.refuse _ _).congr (fun s => ⟨False.elim, ?_⟩) fun _ _ => rfl
    rintro ⟨rfl, -⟩
    exact hunknown s.unknownFlags_flags

/-- Bytes that are read to the last one are the spelling of what was read, and of it alone. -/
theorem decode_eq_ok_iff {flags : UInt32} {data : List UInt8} {transactionVersion : UInt8}
    {limits : Limits} {s : AppendixSet} :
    decode flags data transactionVersion limits = .ok s ↔
      (s.flags = flags ∧ s.WireValid transactionVersion limits) ∧ s.toBytes = data := by
  have hreads := reads_decodeFrom flags transactionVersion limits (.ofBytes data)
  have hrest : (Cursor.ofBytes data).rest = data := rfl
  have hremaining : ∀ n, ((Cursor.ofBytes data).advance n).remaining = data.length - n := by
    intro n
    simp [Cursor.remaining, Cursor.advance, Cursor.ofBytes]
  unfold decode
  constructor
  · intro h
    cases hfrom : decodeFrom flags transactionVersion limits (.ofBytes data) with
    | error e c => simp [hfrom] at h
    | ok t c =>
      obtain ⟨hvalid, hprefix, rfl⟩ := (hreads t c).1 hfrom
      rw [hrest] at hprefix
      simp only [hfrom, hremaining] at h
      split at h
      · next hall =>
        cases h
        exact ⟨hvalid, hprefix.eq_of_length_le (by omega)⟩
      · cases h
  · rintro ⟨hvalid, rfl⟩
    rw [(hreads s _).2 ⟨hvalid, List.prefix_rfl, rfl⟩]
    simp [hremaining]

/-- A valid set is read back from any place in a stream, and only a valid one is. -/
theorem decode_toBytes (s : AppendixSet) (transactionVersion : UInt8) (limits : Limits) :
    (s.WireValid transactionVersion limits → ∀ before after : List UInt8,
      decodeFrom s.flags transactionVersion limits
          ⟨before ++ s.toBytes ++ after, before.length⟩ =
        .ok s ⟨before ++ s.toBytes ++ after, before.length + s.byteSize⟩) ∧
    (decode s.flags s.toBytes transactionVersion limits = .ok s ↔
      s.WireValid transactionVersion limits) := by
  constructor
  · -- in a stream
    intro hvalid before after
    refine (reads_decodeFrom _ _ _ _ _ _).2 ⟨⟨rfl, hvalid⟩, ?_, ?_⟩
    · simp [Cursor.rest]
    · rw [length_toBytes]
      rfl
  · -- alone
    rw [decode_eq_ok_iff]
    simp

/-- One appendix of each shape: a text, a key, an empty ciphertext and a poll on an asset. -/
def oneOfEach : AppendixSet where
  message := some ⟨1, [104, 105], true⟩
  encryptedMessage := none
  announcement := some ⟨1, List.replicate 32 5⟩
  encryptToSelf := some ⟨1, [], [], false⟩
  phasing := some ⟨1, 200, 3, 1, .asset 77, [11, 12]⟩

theorem decode_toBytes_oneOfEach :
    oneOfEach.WireValid 1 .standard ∧
      decodeFrom oneOfEach.flags 1 .standard ⟨[9, 9] ++ oneOfEach.toBytes ++ [7], 2⟩ =
        .ok oneOfEach ⟨[9, 9] ++ oneOfEach.toBytes ++ [7], 2 + oneOfEach.byteSize⟩ ∧
      decode oneOfEach.flags oneOfEach.toBytes 1 .standard = .ok oneOfEach := by
  have hvalid : oneOfEach.WireValid 1 .standard := by decide
  obtain ⟨hstream, hwhole⟩ := decode_toBytes oneOfEach 1 .standard
  exact ⟨hvalid, hstream hvalid [9, 9] [7], hwhole.2 hvalid⟩

/-- What was read spells the bytes that it was read from, whatever the version of the transaction
    and the limits were. -/
theorem decode_canonical :
    (∀ (flags : UInt32) (transactionVersion : UInt8) (limits : Limits) (c c' : Cursor)
      (s : AppendixSet), decodeFrom flags transactionVersion limits c = .ok s c' →
      s.flags = flags ∧ c'.data = c.data ∧ c'.position = c.position + s.byteSize ∧
        (c.data.drop c.position).take (c'.position - c.position) = s.toBytes) ∧
    (∀ (flags : UInt32) (data : List UInt8) (transactionVersion : UInt8) (limits : Limits)
      (s : AppendixSet), decode flags data transactionVersion limits = .ok s →
      s.toBytes = data ∧ s.flags = flags) ∧
    (∀ (flags flags' : UInt32) (data data' : List UInt8) (transactionVersion
      transactionVersion' : UInt8) (limits limits' : Limits) (s : AppendixSet),
      decode flags data transactionVersion limits = .ok s →
      decode flags' data' transactionVersion' limits' = .ok s →
      flags = flags' ∧ data = data') := by
  refine ⟨?_, ?_, ?_⟩
  · -- the bytes consumed
    intro flags transactionVersion limits c c' s h
    obtain ⟨⟨hflags, -⟩, hprefix, rfl⟩ := (reads_decodeFrom _ _ _ _ _ _).1 h
    have hmoved : (c.advance s.toBytes.length).position - c.position = s.toBytes.length :=
      Nat.add_sub_cancel_left ..
    refine ⟨hflags, rfl, ?_, ?_⟩
    · rw [← length_toBytes]
      rfl
    · rw [hmoved]
      exact (List.prefix_iff_eq_take.1 hprefix).symm
  · -- all the bytes
    intro flags data transactionVersion limits s h
    obtain ⟨⟨hflags, -⟩, hdata⟩ := decode_eq_ok_iff.1 h
    exact ⟨hdata, hflags⟩
  · -- two readings of one set
    intro flags flags' data data' transactionVersion transactionVersion' limits limits' s h h'
    obtain ⟨⟨rfl, -⟩, rfl⟩ := decode_eq_ok_iff.1 h
    obtain ⟨⟨rfl, -⟩, rfl⟩ := decode_eq_ok_iff.1 h'
    exact ⟨rfl, rfl⟩

/-- The seven bytes of a short text, between others that belong to something else. -/
theorem decode_canonical_text :
    ∃ s c, decodeFrom 1 1 .standard ⟨[7, 1, 2, 0, 0, 128, 104, 105, 9], 1⟩ = .ok s c ∧
      s.byteSize = 7 ∧ s.toBytes = [1, 2, 0, 0, 128, 104, 105] := by
  have hread : decodeFrom 1 1 .standard ⟨[7, 1, 2, 0, 0, 128, 104, 105, 9], 1⟩ =
      .ok { empty with message := some ⟨1, [104, 105], true⟩ }
        ⟨[7, 1, 2, 0, 0, 128, 104, 105, 9], 8⟩ := by rfl
  obtain ⟨-, -, hposition, hbytes⟩ := decode_canonical.1 _ _ _ _ _ _ hread
  exact ⟨_, _, hread, (Nat.add_left_cancel (n := 1) (m := 7) hposition).symm, hbytes.symm⟩

end LedgerAppendix.AppendixSet
