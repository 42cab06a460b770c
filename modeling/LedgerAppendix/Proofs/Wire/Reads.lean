import LedgerAppendix.Bytes
import LedgerAppendix.Wire
import Mathlib.Algebra.Ring.Nat

/-!
# Exact reading

A decoder and a spelling belong together when the decoder accepts exactly the bytes that the
spelling writes. `Decoder.Reads d spelling valid` says this in both directions at once: from right
to left nothing that was written is refused, from left to right nothing else is accepted, so every
value has one spelling only. The lemmas below prove it for single fields and put fields together;
a decoder of several fields is then settled by following its text.
-/

namespace LedgerAppendix

/-!
## Little-endian words are read back

Writing and reading are inverse to each other: `value_bytes` says what is read back from what was
written (the number, reduced to the width), and `bytes_value` says that the bytes read are the only
ones that spell their number at their width.
-/

namespace LittleEndian

@[simp] theorem length_bytes (width n : Nat) : (bytes width n).length = width := by
  induction width generalizing n with
  | zero => rfl
  | succ width ih => simp [bytes, ih]

/-- What was written reads back as the number, reduced to the width it was written in. -/
theorem value_bytes (width n : Nat) : value (bytes width n) = n % 256 ^ width := by
  induction width generalizing n with
  | zero => simp [bytes, value, Nat.mod_one]
  | succ width ih =>
    have low : (UInt8.ofNat n).toNat = n % 256 := by simp
    rw [bytes, value, ih, low, Nat.pow_succ, Nat.mul_comm (256 ^ width) 256, Nat.mod_mul]

/-- Bytes are recovered from the number that they spell. -/
theorem bytes_value (bs : List UInt8) : bytes bs.length (value bs) = bs := by
  induction bs with
  | nil => rfl
  | cons b rest ih =>
    have hb : b.toNat < 256 := b.toNat_lt
    have high : (b.toNat + 256 * value rest) / 256 = value rest := by omega
    have low : UInt8.ofNat (b.toNat + 256 * value rest) = b := by
      apply UInt8.toNat_inj.1
      simp
    simp [bytes, value, high, low, ih]

theorem value_lt (bs : List UInt8) : value bs < 256 ^ bs.length := by
  have h := value_bytes bs.length (value bs)
  rw [bytes_value] at h
  rw [h]
  exact Nat.mod_lt _ (Nat.pow_pos (by decide))

end LittleEndian

/-! ## Decoders -/

namespace Cursor

@[simp] theorem length_rest (c : Cursor) : c.rest.length = c.remaining := by
  simp [rest, remaining]

@[simp] theorem advance_zero (c : Cursor) : c.advance 0 = c := rfl

theorem advance_advance (c : Cursor) (m n : Nat) : (c.advance m).advance n = c.advance (m + n) := by
  simp [advance, Nat.add_assoc]

theorem rest_advance (c : Cursor) (n : Nat) : (c.advance n).rest = c.rest.drop n := by
  simp [rest, advance, List.drop_drop]

end Cursor

namespace Decoder

variable {α β : Type}

/-- The decoder reads a value off the cursor if and only if the value is valid and its spelling
    stands there, and then it moves the cursor behind the spelling. -/
def Reads (d : Decoder α) (spelling : α → List UInt8) (valid : α → Prop) : Prop :=
  ∀ c a c', d c = .ok a c' ↔
    valid a ∧ spelling a <+: c.rest ∧ c' = c.advance (spelling a).length

/-! ### Sequences -/

theorem bind_eq_ok_iff {d : Decoder α} {k : α → Decoder β} {c c' : Cursor} {b : β} :
    (d >>= k) c = .ok b c' ↔ ∃ a c₁, d c = .ok a c₁ ∧ k a c₁ = .ok b c' := by
  change EStateM.bind d k c = .ok b c' ↔ _
  unfold EStateM.bind
  cases h : d c with
  | ok a c₁ =>
    constructor
    · intro hk
      exact ⟨a, c₁, rfl, hk⟩
    · rintro ⟨a', c₁', hd, hk⟩
      cases hd
      exact hk
  | error e c₁ =>
    constructor
    · intro hk
      cases hk
    · rintro ⟨a', c₁', hd, _⟩
      cases hd

theorem bind_eq_error_iff {d : Decoder α} {k : α → Decoder β} {c c' : Cursor} {e : AppendixError} :
    (d >>= k) c = .error e c' ↔
      d c = .error e c' ∨ ∃ a c₁, d c = .ok a c₁ ∧ k a c₁ = .error e c' := by
  change EStateM.bind d k c = .error e c' ↔ _
  unfold EStateM.bind
  cases d c with
  | ok a c₁ => simp [and_assoc]
  | error e₁ c₁ => simp

theorem map_eq_ok_iff {d : Decoder α} {f : α → β} {c c' : Cursor} {b : β} :
    (f <$> d) c = .ok b c' ↔ ∃ a, d c = .ok a c' ∧ f a = b := by
  change EStateM.map f d c = .ok b c' ↔ _
  unfold EStateM.map
  cases h : d c with
  | ok a c₁ =>
    constructor
    · intro hmap
      cases hmap
      exact ⟨a, rfl, rfl⟩
    · rintro ⟨a', hd, rfl⟩
      cases hd
      rfl
  | error e c₁ =>
    constructor
    · intro hmap
      cases hmap
    · rintro ⟨a', hd, _⟩
      cases hd

theorem append_prefix_iff {x y l : List UInt8} :
    x ++ y <+: l ↔ x <+: l ∧ y <+: l.drop x.length := by
  constructor
  · rintro ⟨t, rfl⟩
    exact ⟨⟨y ++ t, by simp⟩, ⟨t, by simp⟩⟩
  · rintro ⟨⟨t, rfl⟩, ⟨u, hu⟩⟩
    rw [List.drop_left] at hu
    exact ⟨u, by rw [List.append_assoc, hu]⟩

theorem Reads.congr {d : Decoder α} {s s' : α → List UInt8} {v v' : α → Prop}
    (h : Reads d s v) (hv : ∀ a, v a ↔ v' a) (hs : ∀ a, v a → s a = s' a) :
    Reads d s' v' := by
  intro c a c'
  rw [h c a c', ← hv a]
  constructor
  · rintro ⟨ha, hrest⟩
    exact ⟨ha, hs a ha ▸ hrest⟩
  · rintro ⟨ha, hrest⟩
    exact ⟨ha, (hs a ha).symm ▸ hrest⟩

/-- Nothing is read for a value that is known already. -/
theorem Reads.pure (a : α) : Reads (pure a) (fun _ => []) (· = a) := by
  intro c a' c'
  constructor
  · intro h
    cases h
    exact ⟨rfl, List.nil_prefix, rfl⟩
  · rintro ⟨rfl, _, rfl⟩
    rfl

theorem Reads.refuse (e : AppendixError) (s : α → List UInt8) :
    Reads (refuse e) s fun _ => False := by
  intro c a c'
  constructor
  · intro h
    cases h
  · rintro ⟨h, _⟩
    exact h.elim

/-- Two decoders in a row read two spellings in a row. The value read first has to be one that
    the whole value shows: `part` says where. -/
theorem Reads.bind (part : β → α) {d : Decoder α} {k : α → Decoder β} {s : α → List UInt8}
    {t : β → List UInt8} {v : α → Prop} {w : α → β → Prop} (hd : Reads d s v)
    (hk : ∀ a, v a → Reads (k a) t (w a)) (hpart : ∀ a b, v a → w a b → part b = a) :
    Reads (d >>= k) (fun b => s (part b) ++ t b) fun b => v (part b) ∧ w (part b) b := by
  intro c b c'
  rw [bind_eq_ok_iff, append_prefix_iff, List.length_append]
  constructor
  · rintro ⟨a, c₁, hfirst, hsecond⟩
    obtain ⟨ha, hs, rfl⟩ := (hd c a c₁).1 hfirst
    obtain ⟨hb, ht, rfl⟩ := (hk a ha _ b c').1 hsecond
    obtain rfl := hpart a b ha hb
    rw [Cursor.rest_advance] at ht
    exact ⟨⟨ha, hb⟩, ⟨hs, ht⟩, Cursor.advance_advance ..⟩
  · rintro ⟨⟨ha, hb⟩, ⟨hs, ht⟩, rfl⟩
    refine ⟨part b, _, (hd c _ _).2 ⟨ha, hs, rfl⟩, (hk _ ha _ b _).2 ⟨hb, ?_, ?_⟩⟩
    · rw [Cursor.rest_advance]
      exact ht
    · rw [Cursor.advance_advance]

/-- A check on the value just read narrows what is valid. -/
theorem Reads.guard {d : Decoder α} {s : α → List UInt8} {v : α → Prop} (hd : Reads d s v)
    (p : α → Prop) [DecidablePred p] (e : α → AppendixError) :
    Reads (d >>= fun a => if p a then Pure.pure a else Decoder.refuse (e a)) s
      fun a => v a ∧ p a := by
  have hk : ∀ a, v a → Reads (if p a then (Pure.pure a : Decoder α) else Decoder.refuse (e a))
      (fun _ => []) fun b => p b ∧ b = a := by
    intro a _
    split
    · next hp => exact (Reads.pure a).congr (fun b => ⟨fun h => ⟨h ▸ hp, h⟩, And.right⟩) (by simp)
    · next hp =>
      exact (Reads.refuse _ s).congr (fun b => ⟨False.elim, fun h => hp (h.2 ▸ h.1)⟩) (by simp)
  have hbind := Reads.bind id hd hk fun _ _ _ h => h.2
  exact hbind.congr (by simp) fun a _ => List.append_nil (s a)

/-- Wrapping what is read changes neither the bytes nor what is valid. -/
theorem Reads.map {d : Decoder α} {s : α → List UInt8} {v : α → Prop} (hd : Reads d s v)
    (f : α → β) {t : β → List UInt8} (ht : ∀ a, t (f a) = s a) :
    Reads (f <$> d) t fun b => ∃ a, v a ∧ f a = b := by
  intro c b c'
  rw [map_eq_ok_iff]
  constructor
  · rintro ⟨a, ha, rfl⟩
    obtain ⟨hv, hs, hc⟩ := (hd c a c').1 ha
    exact ⟨⟨a, hv, rfl⟩, by rwa [ht], by rwa [ht]⟩
  · rintro ⟨⟨a, hv, rfl⟩, hs, hc⟩
    rw [ht] at hs hc
    exact ⟨a, (hd c a c').2 ⟨hv, hs, hc⟩, rfl⟩

/-! ### Fields -/

theorem reads_bytes (count : Nat) : Reads (bytes count) id fun bs => bs.length = count := by
  intro c bs c'
  unfold bytes
  constructor
  · intro h
    split at h
    · next hcount =>
      cases h
      have hlength : (c.rest.take count).length = count := by simp [hcount]
      exact ⟨hlength, List.take_prefix _ _, by rw [id, hlength]⟩
    · cases h
  · rintro ⟨rfl, hprefix, rfl⟩
    have hcount : bs.length ≤ c.remaining := by
      rw [← c.length_rest]
      exact hprefix.length_le
    have htake : c.rest.take bs.length = bs := (List.prefix_iff_eq_take.1 hprefix).symm
    rw [if_pos hcount, htake]
    rfl

theorem bytes_eq_error_iff {count : Nat} {c c' : Cursor} {e : AppendixError} :
    bytes count c = .error e c' ↔
      c.remaining < count ∧ e = .truncated count c.remaining ∧ c' = c := by
  unfold bytes
  split
  · next hfits => simp [Nat.not_lt.2 hfits]
  · next hshort => simp [Nat.not_le.1 hshort, eq_comm]

/-- A word of some width, given by the number that its bytes spell. -/
theorem reads_word (width : Nat) (ofNat : Nat → α) (toNat : α → Nat)
    (ofNat_toNat : ∀ a, ofNat (toNat a) = a) (toNat_lt : ∀ a, toNat a < 256 ^ width)
    (toNat_ofNat : ∀ n, n < 256 ^ width → toNat (ofNat n) = n) :
    Reads (do return ofNat (LittleEndian.value (← bytes width)))
      (fun a => LittleEndian.bytes width (toNat a)) fun _ => True := by
  have hbytes : ∀ bs : List UInt8, bs.length = width →
      LittleEndian.bytes width (toNat (ofNat (LittleEndian.value bs))) = bs := by
    rintro bs rfl
    rw [toNat_ofNat _ (LittleEndian.value_lt bs), LittleEndian.bytes_value]
  have hvalue : ∀ a, ofNat (LittleEndian.value (LittleEndian.bytes width (toNat a))) = a := by
    intro a
    rw [LittleEndian.value_bytes, Nat.mod_eq_of_lt (toNat_lt a), ofNat_toNat]
  have hbind := Reads.bind (fun a => LittleEndian.bytes width (toNat a)) (reads_bytes width)
    (fun bs _ => Reads.pure (ofNat (LittleEndian.value bs)))
    (by rintro bs _ h rfl; exact hbytes bs h)
  exact hbind.congr (fun a => by simp [hvalue]) fun a _ => List.append_nil _

theorem reads_byte : Reads byte (fun b => [b]) fun _ => True := by
  refine (reads_word 1 UInt8.ofNat UInt8.toNat ?_ ?_ ?_).congr (fun _ => Iff.rfl) ?_
  · intro b
    simp
  · intro b
    exact b.toNat_lt
  · intro n hn
    exact UInt8.toNat_ofNat_of_lt hn
  · intro b _
    simp [LittleEndian.bytes]

theorem reads_word32 : Reads word32 (fun n => LittleEndian.bytes 4 n.toNat) fun _ => True := by
  refine reads_word 4 UInt32.ofNat UInt32.toNat ?_ ?_ ?_
  · intro n
    simp
  · intro n
    exact n.toNat_lt
  · intro n hn
    exact UInt32.toNat_ofNat_of_lt hn

theorem reads_word64 : Reads word64 (fun n => LittleEndian.bytes 8 n.toNat) fun _ => True := by
  refine reads_word 8 UInt64.ofNat UInt64.toNat ?_ ?_ ?_
  · intro n
    simp
  · intro n
    exact n.toNat_lt
  · intro n hn
    exact UInt64.toNat_ofNat_of_lt hn

/-- A length word is read back if and only if its length fits into 31 bits and is within the
    limit. -/
theorem reads_length (field : String) (max : Nat) :
    Reads (length field max) (fun f => LittleEndian.bytes 4 f.pack.toNat)
      fun f => f.length < 2 ^ 31 ∧ f.length ≤ max := by
  have hbind := Reads.bind LengthField.pack reads_word32
    (fun n _ => Reads.pure (LengthField.unpack n))
    (by rintro n _ _ rfl; exact LengthField.pack_unpack n)
  have hfield : Reads (do return LengthField.unpack (← word32))
      (fun f => LittleEndian.bytes 4 f.pack.toNat) fun f => f.length < 2 ^ 31 := by
    refine hbind.congr (fun f => ?_) fun f _ => List.append_nil _
    constructor
    · rintro ⟨-, hf⟩
      rw [hf]
      exact Nat.mod_lt _ (by decide)
    · intro hlength
      exact ⟨trivial, (LengthField.unpack_pack f hlength).symm⟩
  have hguard := hfield.guard (·.length ≤ max) fun f => .lengthExceeded field f.length max
  simp only [bind_assoc, pure_bind] at hguard
  exact hguard

/-! ### Lists -/

/-- A list is read element by element, and its spelling is the spellings of its elements. -/
theorem Reads.cons {d : Decoder α} {ds : Decoder (List α)} {s : α → List UInt8} {v : α → Prop}
    {w : List α → Prop} (hd : Reads d s v) (hds : Reads ds (fun l => l.flatMap s) w) :
    Reads (do
        let first ← d
        let others ← ds
        return first :: others)
      (fun l => l.flatMap s) fun
        | [] => False
        | a :: as => v a ∧ w as := by
  intro c l c'
  rw [bind_eq_ok_iff]
  constructor
  · rintro ⟨a, c₁, hfirst, hothers⟩
    obtain ⟨as, _, hothers, hlist⟩ := bind_eq_ok_iff.1 hothers
    cases hlist
    obtain ⟨ha, hs, rfl⟩ := (hd c a c₁).1 hfirst
    obtain ⟨has, ht, rfl⟩ := (hds _ as _).1 hothers
    rw [Cursor.rest_advance] at ht
    simp only [List.flatMap_cons, append_prefix_iff, List.length_append]
    exact ⟨⟨ha, has⟩, ⟨hs, ht⟩, Cursor.advance_advance ..⟩
  · rintro ⟨hvalid, hprefix, rfl⟩
    obtain _ | ⟨a, as⟩ := l
    · exact hvalid.elim
    obtain ⟨ha, has⟩ := hvalid
    simp only [List.flatMap_cons, append_prefix_iff] at hprefix
    refine ⟨a, _, (hd c a _).2 ⟨ha, hprefix.1, rfl⟩,
      bind_eq_ok_iff.2 ⟨as, _, (hds _ as _).2 ⟨has, ?_, rfl⟩, ?_⟩⟩
    · rw [Cursor.rest_advance]
      exact hprefix.2
    · simp only [Cursor.advance_advance, List.flatMap_cons, List.length_append]
      rfl

theorem Reads.repeated {d : Decoder α} {s : α → List UInt8} {v : α → Prop} (hd : Reads d s v)
    (count : Nat) : Reads (Decoder.repeated d count) (fun l => l.flatMap s)
      fun l => l.length = count ∧ ∀ a ∈ l, v a := by
  induction count with
  | zero =>
    refine (Reads.pure []).congr (fun l => ?_) (by rintro l rfl; rfl)
    cases l <;> simp
  | succ count ih =>
    refine (hd.cons ih).congr (fun l => ?_) fun _ _ => rfl
    cases l with
    | nil => simp
    | cons a as => simp [and_left_comm]

end Decoder

namespace Version

/-- The bytes of a version. -/
def spelling (version : UInt8) : List UInt8 := if 0 < version then [version] else []

theorem bytes_write (version : UInt8) (w : Buffer) :
    (write version w).bytes = w.bytes ++ spelling version := by
  unfold write spelling
  split <;> simp

theorem length_spelling (version : UInt8) : (spelling version).length = size version := by
  unfold spelling size
  split <;> rfl

/-- A version is read back if and only if it goes with the transaction's. -/
theorem reads_read (transactionVersion : UInt8) :
    Decoder.Reads (read transactionVersion) spelling
      fun version => 0 < version ↔ 0 < transactionVersion := by
  have hpos : ∀ n : UInt8, 0 < n ↔ ¬ n = 0 := fun n => UInt8.pos_iff_ne_zero
  unfold read
  split
  · next hlegacy =>
    -- nothing is read, and the version is 0
    refine (Decoder.Reads.pure 0).congr (fun version => ?_) ?_
    · simp [hpos, hlegacy]
    · rintro version rfl
      rfl
  · next hmodern =>
    -- one byte is read, which must not be 0
    have hguard := Decoder.reads_byte.guard (· ≠ 0) fun version =>
      .invalidVersion version transactionVersion
    simp only [ne_eq, ite_not] at hguard
    refine hguard.congr (fun version => ?_) ?_
    · simp [hpos, hmodern]
    · rintro version ⟨-, hversion⟩
      rw [spelling, if_pos ((hpos version).2 hversion)]

end Version

end LedgerAppendix
