import LedgerAppendix.Proofs.Wire.Region
import Mathlib.Data.List.Infix

/-!
# Pieces of a region

A region is made of fields, one after the other, and a reader notices that bytes are missing at the
first field that does not fit. Until then it has read the same as from the whole region, so nothing
else can come in between: no length, no count and no version looks any different in a piece of a
region than in all of it. `Decoder.Spans` says this of one reading, with the widths of the fields
that were read, and is put together along the text of a decoder as `Decoder.Reads` is.
-/

namespace LedgerAppendix

/-! ### Fields that do not fit -/

/-- The first of some fields, given by their widths, that does not fit into the bytes that there
    are: its width, and how many bytes are left for it. -/
def shortfall? : List Nat → Nat → Option (Nat × Nat)
  | [], _ => none
  | width :: widths, available =>
    if width ≤ available then shortfall? widths (available - width) else some (width, available)

theorem shortfall?_eq_none_iff {widths : List Nat} {available : Nat} :
    shortfall? widths available = none ↔ widths.sum ≤ available := by
  induction widths generalizing available with
  | nil => simp [shortfall?]
  | cons width widths ih =>
    rw [shortfall?, List.sum_cons]
    split
    · rw [ih]
      omega
    · simp only [reduceCtorEq, false_iff]
      omega

theorem shortfall?_append (ws ws' : List Nat) (available : Nat) :
    shortfall? (ws ++ ws') available =
      (shortfall? ws available).or (shortfall? ws' (available - ws.sum)) := by
  induction ws generalizing available with
  | nil => rfl
  | cons width ws ih =>
    rw [List.cons_append, shortfall?, shortfall?, List.sum_cons]
    split
    · rw [ih, Nat.sub_sub]
    · rfl

/-- What is said of the first field that does not fit: all fields before it do. -/
theorem of_shortfall?_eq_some {widths : List Nat} {available width left : Nat}
    (h : shortfall? widths available = some (width, left)) :
    ∃ before after, widths = before ++ width :: after ∧ before.sum ≤ available ∧
      left = available - before.sum ∧ left < width := by
  induction widths generalizing available with
  | nil => cases h
  | cons first widths ih =>
    rw [shortfall?] at h
    split at h
    · next hfits =>
      obtain ⟨before, after, rfl, hsum, rfl, hshort⟩ := ih h
      refine ⟨first :: before, after, rfl, ?_, ?_, hshort⟩ <;> rw [List.sum_cons] <;> omega
    · next hshort =>
      cases h
      exact ⟨[], widths, rfl, Nat.zero_le _, rfl, Nat.lt_of_not_le hshort⟩

/-! ### Readings -/

namespace Decoder

variable {α β : Type} {d : Decoder α} {c c₁ c' : Cursor} {a a₁ : α}

/-- The decoder reads a value off fields of these widths, which lie between the two cursors. Off any
    piece of the same bytes it reads the same, or comes to the first field that does not fit and
    refuses that one. -/
structure Spans (d : Decoder α) (c : Cursor) (a : α) (c' : Cursor) (widths : List Nat) : Prop where
  moved : c' = c.advance widths.sum
  piece : ∀ data, data <+: c.data → c.position ≤ data.length →
    d ⟨data, c.position⟩ =
      match shortfall? widths (data.length - c.position) with
      | none => .ok a ⟨data, c'.position⟩
      | some (width, left) => .error (.truncated width left) ⟨data, data.length - left⟩

theorem Spans.pure (a : α) (c : Cursor) : Spans (pure a) c a c [] :=
  ⟨rfl, fun _ _ _ => rfl⟩

/-- A field of no bytes is read off any piece. -/
theorem Spans.nothing (a : α) (c : Cursor) : Spans (Pure.pure a) c a c [0] :=
  ⟨rfl, fun _ _ _ => rfl⟩

theorem Spans.bind {k : α → Decoder β} {b : β} {ws ws' : List Nat} (hd : Spans d c a c₁ ws)
    (hk : Spans (k a) c₁ b c' ws') : Spans (d >>= k) c b c' (ws ++ ws') := by
  obtain ⟨rfl, hfirst⟩ := hd
  obtain ⟨rfl, hsecond⟩ := hk
  refine ⟨by rw [List.sum_append, Cursor.advance_advance], fun data hdata hposition => ?_⟩
  change EStateM.bind d k _ = _
  rw [EStateM.bind, hfirst data hdata hposition, shortfall?_append]
  cases hshort : shortfall? ws (data.length - c.position) with
  | some field => rfl
  | none =>
    have hsum := shortfall?_eq_none_iff.1 hshort
    have hreached : (c.advance ws.sum).position ≤ data.length := by
      simp only [Cursor.advance]
      omega
    have hleft : data.length - (c.advance ws.sum).position = data.length - c.position - ws.sum :=
      Nat.sub_add_eq ..
    rw [Option.none_or, ← hleft]
    exact hsecond data hdata hreached

theorem Spans.map {ws : List Nat} (hd : Spans d c a c' ws) (f : α → β) :
    Spans (f <$> d) c (f a) c' ws := by
  refine ⟨hd.moved, fun data hdata hposition => ?_⟩
  change EStateM.map f d _ = _
  rw [EStateM.map, hd.piece data hdata hposition]
  cases shortfall? ws (data.length - c.position) <;> rfl

/-! ### Fields -/

theorem spans_bytes {count : Nat} {bs : List UInt8} (h : bytes count c = .ok bs c') :
    Spans (bytes count) c bs c' [bs.length] := by
  obtain ⟨rfl, hprefix, rfl⟩ := (reads_bytes count c bs c').1 h
  refine ⟨rfl, fun data hdata hposition => ?_⟩
  have hremaining : (Cursor.mk data c.position).remaining = data.length - c.position := rfl
  unfold bytes
  rw [hremaining, shortfall?]
  split
  · next hfits =>
    -- enough of the bytes is there, and it is the same as in the whole
    have hpiece : (Cursor.mk data c.position).rest <+: c.rest := List.IsPrefix.drop hdata c.position
    have hbs : bs <+: (Cursor.mk data c.position).rest :=
      List.prefix_of_prefix_length_le hprefix hpiece (by rw [Cursor.length_rest]; exact hfits)
    rw [← List.prefix_iff_eq_take.1 hbs]
    rfl
  · have hstart : data.length - (data.length - c.position) = c.position := by omega
    simp only [hstart]

/-- A word of some width is one field, whatever is made of its bytes. -/
theorem spans_word {width : Nat} {f : List UInt8 → α}
    (h : (do return f (← bytes width) : Decoder α) c = .ok a c') :
    Spans (do return f (← bytes width)) c a c' [width] := by
  obtain ⟨bs, c₁, hbytes, h⟩ := bind_eq_ok_iff.1 h
  cases h
  obtain rfl : bs.length = width := ((reads_bytes width c bs c').1 hbytes).1
  exact (spans_bytes hbytes).bind (.pure (f bs) c')

theorem spans_byte {b : UInt8} (h : byte c = .ok b c') : Spans byte c b c' [1] := spans_word h

theorem spans_word32 {n : UInt32} (h : word32 c = .ok n c') : Spans word32 c n c' [4] :=
  spans_word h

theorem spans_word64 {n : UInt64} (h : word64 c = .ok n c') : Spans word64 c n c' [8] :=
  spans_word h

/-- A check of what was read, once it has been passed, takes no field of its own. -/
theorem spans_guard {p : Prop} [Decidable p] {e : AppendixError}
    (h : (if p then pure a else refuse e : Decoder α) c = .ok a₁ c') :
    Spans (if p then pure a else refuse e) c a₁ c' [] := by
  split at h
  · next hp =>
    cases h
    rw [if_pos hp]
    exact .pure a c
  · cases h

theorem spans_length {field : String} {max : Nat} {f : LengthField}
    (h : length field max c = .ok f c') : Spans (length field max) c f c' [4] := by
  obtain ⟨n, c₁, hword, h⟩ := bind_eq_ok_iff.1 h
  exact (spans_word32 hword).bind (spans_guard h)

theorem Spans.repeated {width : Nat}
    (hd : ∀ {c : Cursor} {a c'}, d c = .ok a c' → Spans d c a c' [width])
    {count : Nat} {as : List α} (h : Decoder.repeated d count c = .ok as c') :
    Spans (Decoder.repeated d count) c as c' (List.replicate as.length width) := by
  induction count generalizing c as with
  | zero =>
    cases h
    exact .pure [] _
  | succ count ih =>
    obtain ⟨a, c₁, hfirst, h⟩ := bind_eq_ok_iff.1 h
    obtain ⟨others, c₂, hothers, h⟩ := bind_eq_ok_iff.1 h
    cases h
    have hrest : Spans (do return a :: (← Decoder.repeated d count)) c₁ (a :: others) c'
        (List.replicate others.length width) := (ih hothers).map (a :: ·)
    exact (hd hfirst).bind hrest

end Decoder

/-! ### Forms -/

section Forms

open Decoder

variable {transactionVersion : UInt8} {limits : Limits} {c c' : Cursor}

theorem Version.spans_read {version : UInt8} (h : read transactionVersion c = .ok version c') :
    Spans (read transactionVersion) c version c' [Version.size version] := by
  have hsize : size version = if 0 < transactionVersion then 1 else 0 :=
    if_congr ((reads_read transactionVersion c version c').1 h).1 rfl rfl
  unfold read at h ⊢
  rw [hsize]
  by_cases hlegacy : transactionVersion = 0
  · rw [if_pos hlegacy] at h ⊢
    cases h
    rw [hlegacy]
    exact .nothing _ _
  · rw [if_neg hlegacy] at h ⊢
    rw [if_pos (UInt8.pos_iff_ne_zero.2 hlegacy)]
    obtain ⟨first, c₁, hbyte, h⟩ := bind_eq_ok_iff.1 h
    refine (spans_byte hbyte).bind ?_
    rw [← ite_not] at h ⊢
    exact spans_guard h

/-- The widths of the fields that the message is written in. -/
def Message.widths (m : Message) : List Nat := [Version.size m.version, 4, m.payload.length]

theorem Message.spans_decode {m : Message} (h : decode transactionVersion limits c = .ok m c') :
    Spans (decode transactionVersion limits) c m c' m.widths := by
  obtain ⟨version, c₁, hversion, h⟩ := bind_eq_ok_iff.1 h
  obtain ⟨field, c₂, hfield, h⟩ := bind_eq_ok_iff.1 h
  obtain ⟨payload, c₃, hpayload, h⟩ := bind_eq_ok_iff.1 h
  cases h
  exact (Version.spans_read hversion).bind ((spans_length hfield).bind
    ((spans_bytes hpayload).bind (.pure _ _)))

/-- The widths of the fields that the sealed message is written in. -/
def SealedMessage.widths (m : SealedMessage) : List Nat :=
  [Version.size m.version, 4, m.ciphertext.length, m.nonce.length]

theorem SealedMessage.spans_decode {m : SealedMessage}
    (h : decode transactionVersion limits c = .ok m c') :
    Spans (decode transactionVersion limits) c m c' m.widths := by
  obtain ⟨version, c₁, hversion, h⟩ := bind_eq_ok_iff.1 h
  obtain ⟨field, c₂, hfield, h⟩ := bind_eq_ok_iff.1 h
  obtain ⟨ciphertext, c₃, hciphertext, h⟩ := bind_eq_ok_iff.1 h
  obtain ⟨nonce, c₄, hnonce, h⟩ := bind_eq_ok_iff.1 h
  cases h
  exact (Version.spans_read hversion).bind ((spans_length hfield).bind
    ((spans_bytes hciphertext).bind ((spans_bytes hnonce).bind (.pure _ _))))

/-- The widths of the fields that the announcement is written in. -/
def Announcement.widths (a : Announcement) : List Nat := [Version.size a.version, a.key.length]

theorem Announcement.spans_decode {a : Announcement} (h : decode transactionVersion c = .ok a c') :
    Spans (decode transactionVersion) c a c' a.widths := by
  obtain ⟨version, c₁, hversion, h⟩ := bind_eq_ok_iff.1 h
  obtain ⟨key, c₂, hkey, h⟩ := bind_eq_ok_iff.1 h
  cases h
  exact (Version.spans_read hversion).bind ((spans_bytes hkey).bind (.pure _ _))

theorem Weighting.spans_decode {w : Weighting} (h : decode c = .ok w c') :
    Spans decode c w c' [1, w.assetSize] := by
  obtain ⟨code, c₁, hcode, h⟩ := bind_eq_ok_iff.1 h
  refine (spans_byte hcode).bind ?_
  cases hmodel : VotingModel.ofCode? code with
  | none =>
    rw [hmodel] at h
    cases h
  | some model =>
    rw [hmodel] at h
    cases model with
    | balance =>
      cases h
      exact .nothing _ _
    | account =>
      cases h
      exact .nothing _ _
    | asset =>
      obtain ⟨id, c₂, hid, h⟩ := bind_eq_ok_iff.1 h
      cases h
      exact (spans_word64 hid).map Weighting.asset

/-- The widths of the fields that the phasing is written in, each voter one of them. -/
def Phasing.widths (p : Phasing) : List Nat :=
  [Version.size p.version, 4, 8, 8, 1, p.weighting.assetSize, 1] ++
    List.replicate p.voters.length 8

theorem Phasing.spans_decodeVoters {maxVoters : Nat} {voters : List AccountId}
    (h : decodeVoters maxVoters c = .ok voters c') :
    Spans (decodeVoters maxVoters) c voters c' (1 :: List.replicate voters.length 8) := by
  obtain ⟨count, c₁, hcount, h⟩ := bind_eq_ok_iff.1 h
  refine (spans_byte hcount).bind ?_
  dsimp only at h ⊢
  split at h
  · next hmax =>
    rw [if_pos hmax]
    exact Spans.repeated spans_word64 h
  · cases h

theorem Phasing.spans_decode {p : Phasing} (h : decode transactionVersion limits c = .ok p c') :
    Spans (decode transactionVersion limits) c p c' p.widths := by
  obtain ⟨version, c₁, hversion, h⟩ := bind_eq_ok_iff.1 h
  obtain ⟨maxHeight, c₂, hheight, h⟩ := bind_eq_ok_iff.1 h
  obtain ⟨quorum, c₃, hquorum, h⟩ := bind_eq_ok_iff.1 h
  obtain ⟨threshold, c₄, hthreshold, h⟩ := bind_eq_ok_iff.1 h
  obtain ⟨weighting, c₅, hweighting, h⟩ := bind_eq_ok_iff.1 h
  obtain ⟨voters, c₆, hvoters, h⟩ := bind_eq_ok_iff.1 h
  cases h
  refine (Version.spans_read hversion).bind ((spans_word32 hheight).bind ?_)
  refine (spans_word64 hquorum).bind ((spans_word64 hthreshold).bind ?_)
  exact (Weighting.spans_decode hweighting).bind ((spans_decodeVoters hvoters).map _)

/-! ### Any kind -/

/-- The widths of the fields that the appendix is written in. -/
def Appendix.widths : Appendix → List Nat
  | .message m => m.widths
  | .encryptedMessage m => m.widths
  | .announcement a => a.widths
  | .encryptToSelf m => m.widths
  | .phasing p => p.widths

/-- The fields take all the bytes of the appendix. -/
theorem Appendix.sum_widths (a : Appendix) : a.widths.sum = a.size := by
  cases a <;>
    simp [widths, size, Message.widths, Message.size, SealedMessage.widths, SealedMessage.size,
      SealedMessage.sealedSize, Announcement.widths, Announcement.size, Phasing.widths,
      Phasing.size] <;> omega

theorem Appendix.spans_decode {kind : Kind} {a : Appendix}
    (h : decode kind transactionVersion limits c = .ok a c') :
    Spans (decode kind transactionVersion limits) c a c' a.widths := by
  cases kind with
  | message =>
    obtain ⟨m, hm, rfl⟩ := map_eq_ok_iff.1 h
    exact (Message.spans_decode hm).map _
  | encryptedMessage =>
    obtain ⟨m, hm, rfl⟩ := map_eq_ok_iff.1 h
    exact (SealedMessage.spans_decode hm).map _
  | announcement =>
    obtain ⟨a, ha, rfl⟩ := map_eq_ok_iff.1 h
    exact (Announcement.spans_decode ha).map _
  | encryptToSelf =>
    obtain ⟨m, hm, rfl⟩ := map_eq_ok_iff.1 h
    exact (SealedMessage.spans_decode hm).map _
  | phasing =>
    obtain ⟨p, hp, rfl⟩ := map_eq_ok_iff.1 h
    exact (Phasing.spans_decode hp).map _

/-! ### Regions -/

namespace AppendixSet

/-- The widths of the fields that the region is written in, from the first to the last. -/
def widths (s : AppendixSet) : List Nat := s.toList.flatMap Appendix.widths

theorem sum_widths (s : AppendixSet) : s.widths.sum = s.byteSize := by
  rw [widths, byteSize, List.flatMap, List.sum_flatten, List.map_map]
  exact congrArg List.sum (List.map_congr_left fun a _ => a.sum_widths)

theorem spans_decodeKinds {kinds : List Kind} {as : List Appendix}
    (h : decodeKinds transactionVersion limits kinds c = .ok as c') :
    Spans (decodeKinds transactionVersion limits kinds) c as c' (as.flatMap Appendix.widths) := by
  induction kinds generalizing c as with
  | nil =>
    cases h
    exact .pure [] _
  | cons kind kinds ih =>
    obtain ⟨a, c₁, hfirst, h⟩ := bind_eq_ok_iff.1 h
    obtain ⟨others, c₂, hothers, h⟩ := bind_eq_ok_iff.1 h
    cases h
    exact (Appendix.spans_decode hfirst).bind ((ih hothers).map (a :: ·))

theorem spans_decodeFrom {flags : UInt32} {s : AppendixSet}
    (h : decodeFrom flags transactionVersion limits c = .ok s c') :
    Spans (decodeFrom flags transactionVersion limits) c s c' s.widths := by
  unfold decodeFrom at h ⊢
  split at h
  · next hknown =>
    obtain ⟨as, c₁, hkinds, h⟩ := bind_eq_ok_iff.1 h
    cases h
    obtain ⟨⟨hlisted, -⟩, -⟩ := (reads_decodeKinds _ _ _ _ _ _).1 hkinds
    rw [if_pos hknown, widths, toList_ofList hlisted]
    exact (spans_decodeKinds hkinds).map ofList
  · cases h

/-- Of a region that is read to the last byte, no piece is read at all, and neither is it with more
    bytes behind it. A piece is refused at the first field that does not fit, with the width of the
    field and what is left for it. More bytes are refused for what they are, and counted. -/
theorem decode_piece {flags : UInt32} {data : List UInt8} {s : AppendixSet}
    (h : decode flags data transactionVersion limits = .ok s) :
    s.widths.sum = data.length ∧
    (∀ piece, piece <+: data → piece ≠ data →
      ∃ before width after, s.widths = before ++ width :: after ∧ before.sum ≤ piece.length ∧
        piece.length - before.sum < width ∧
        decode flags piece transactionVersion limits =
          .error (.truncated width (piece.length - before.sum))) ∧
    ∀ extra, extra ≠ [] →
      decode flags (data ++ extra) transactionVersion limits =
        .error (.trailingBytes extra.length) := by
  obtain ⟨hvalid, rfl⟩ := decode_eq_ok_iff.1 h
  have hsum : s.widths.sum = s.toBytes.length := s.sum_widths.trans s.length_toBytes.symm
  refine ⟨hsum, fun piece hpiece hne => ?_, fun extra hextra => ?_⟩
  · have hread : decodeFrom flags transactionVersion limits (.ofBytes s.toBytes) = .ok s _ :=
      (reads_decodeFrom _ _ _ _ _ _).2 ⟨hvalid, List.prefix_rfl, rfl⟩
    have hpieces : decodeFrom flags transactionVersion limits (.ofBytes piece) = _ :=
      (spans_decodeFrom hread).piece piece hpiece (Nat.zero_le _)
    have hshorter : ¬s.widths.sum ≤ piece.length :=
      fun hle => hne (hpiece.eq_of_length_le (hsum ▸ hle))
    cases hshort : shortfall? s.widths piece.length with
    | none => exact absurd (shortfall?_eq_none_iff.1 hshort) hshorter
    | some field =>
      obtain ⟨width, left⟩ := field
      obtain ⟨before, after, hwidths, hfits, rfl, hleft⟩ := of_shortfall?_eq_some hshort
      refine ⟨before, width, after, hwidths, hfits, hleft, ?_⟩
      have havailable : piece.length - (Cursor.ofBytes s.toBytes).position = piece.length := rfl
      unfold decode
      rw [hpieces, havailable, hshort]
  · have hread : decodeFrom flags transactionVersion limits (.ofBytes (s.toBytes ++ extra)) =
        .ok s _ :=
      (reads_decodeFrom _ _ _ _ _ _).2 ⟨hvalid, List.prefix_append _ _, rfl⟩
    have hremaining : ((Cursor.ofBytes (s.toBytes ++ extra)).advance s.toBytes.length).remaining =
        extra.length := by
      simp [Cursor.remaining, Cursor.advance, Cursor.ofBytes]
    unfold decode
    rw [hread]
    dsimp only
    rw [hremaining, if_neg (List.length_pos_iff.2 hextra).ne']

/-- A poll is the last of the set, and its second voter is cut off after two bytes. -/
theorem decode_piece_oneOfEach :
    decode oneOfEach.flags oneOfEach.toBytes 1 .standard = .ok oneOfEach ∧
      decode oneOfEach.flags (oneOfEach.toBytes.take 86) 1 .standard = .error (.truncated 8 2) ∧
      (∃ before after, oneOfEach.widths = before ++ 8 :: after ∧ before.sum = 84) ∧
      decode oneOfEach.flags (oneOfEach.toBytes ++ [0]) 1 .standard =
        .error (.trailingBytes 1) := by
  have hread : decode oneOfEach.flags oneOfEach.toBytes 1 .standard = .ok oneOfEach := rfl
  have hcut : decode oneOfEach.flags (oneOfEach.toBytes.take 86) 1 .standard =
      .error (.truncated 8 2) := rfl
  obtain ⟨-, hpiece, hextra⟩ := decode_piece hread
  refine ⟨hread, hcut, ?_, hextra [0] nofun⟩
  obtain ⟨before, width, after, hwidths, hfits, -, hrefused⟩ :=
    hpiece (oneOfEach.toBytes.take 86) (List.take_prefix _ _) (by decide)
  have hsame := hcut.symm.trans hrefused
  simp only [Except.error.injEq, AppendixError.truncated.injEq] at hsame
  obtain ⟨rfl, hleft⟩ := hsame
  have hlength : (oneOfEach.toBytes.take 86).length = 86 := rfl
  exact ⟨before, after, hwidths, by omega⟩

end AppendixSet

end Forms

end LedgerAppendix
