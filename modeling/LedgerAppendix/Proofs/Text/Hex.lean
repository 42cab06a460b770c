import LedgerAppendix.Proofs.Basic
import LedgerAppendix.Proofs.Text.Utf8
import LedgerAppendix.Text

/-!
# Which texts are hexadecimal

Reading works on the bytes of a text, and this is what it comes to on its characters: a text is read
as the bytes whose digits it has, in either case (`decode_eq_ok_iff`), and there are such bytes just
if it falls into pairs of digits (`isText_iff`). A character outside ASCII takes several bytes, so
it could upset the pairs after it, but its first byte is no digit and nothing after it is looked at.
-/

namespace LedgerAppendix.Hex

/-- A digit, in either case. -/
def IsDigit (c : Char) : Prop := c ∈ "0123456789abcdefABCDEF".toList

/-- A text of whole pairs of digits. -/
def IsText (text : String) : Prop := text.length % 2 = 0 ∧ ∀ c ∈ text.toList, IsDigit c

/-- The text is the digits of some bytes, in either case. -/
def Spells (text : String) (bs : List UInt8) : Prop := text.toList.map Char.toLower = digits bs

/-! ### Digits -/

/-- In ASCII, a byte is a digit just if its character is one in lower case. -/
theorem digitValue?_ascii : ∀ i : Fin 128, ∀ n : Fin 16,
    digitValue? (UInt8.ofNat i) = some n.val ↔ (Char.ofNat i).toLower = Nat.digitChar n := by
  decide +kernel

theorem lt_of_digitValue? {b : UInt8} {n : Nat} (h : digitValue? b = some n) : n < 16 := by
  unfold digitValue? at h
  grind

theorem digitValue?_of_le {b : UInt8} (h : 128 ≤ b.toNat) : digitValue? b = none := by
  unfold digitValue?
  grind

/-- A character whose lower case is a digit is in ASCII. -/
theorem toNat_lt_of_toLower {c : Char} {n : Nat} (hn : n < 16)
    (h : c.toLower = Nat.digitChar n) : c.toNat < 128 := by
  rcases Nat.lt_or_ge c.toNat 128 with hc | hc
  · exact hc
  · -- only letters in ASCII have another in lower case
    have hlower : c.toLower = c := by
      unfold Char.toLower
      rw [dif_neg]
      rintro ⟨-, hz⟩
      exact absurd (Nat.le_trans hc (UInt32.le_iff_toNat_le.1 hz)) (by decide)
    have hdigit : ∀ n : Fin 16, (Nat.digitChar n).toNat < 128 := by decide
    rw [← hlower, h]
    exact hdigit ⟨n, hn⟩

theorem isDigit_iff {c : Char} : IsDigit c ↔ ∃ n < 16, c.toLower = Nat.digitChar n := by
  constructor
  · have hlower : "0123456789abcdefABCDEF".toList.all
        (fun c => ∃ n : Fin 16, c.toLower = Nat.digitChar n) = true := by
      decide
    intro hc
    obtain ⟨n, hn⟩ := of_decide_eq_true (List.all_eq_true.1 hlower c hc)
    exact ⟨n, n.isLt, hn⟩
  · rintro ⟨n, hn, h⟩
    have hascii : ∀ i : Fin 128, ∀ n : Fin 16, (Char.ofNat i).toLower = Nat.digitChar n →
        Char.ofNat i ∈ "0123456789abcdefABCDEF".toList := by
      decide +kernel
    have hmem := hascii ⟨c.toNat, toNat_lt_of_toLower hn h⟩ ⟨n, hn⟩
    rw [Char.ofNat_toNat] at hmem
    exact hmem h

/-- A character is written as its number in ASCII, and outside it from another byte on. -/
theorem utf8EncodeChar_cases (c : Char) :
    (c.toNat < 128 ∧ String.utf8EncodeChar c = [UInt8.ofNat c.toNat]) ∨
      (128 ≤ c.toNat ∧ ∃ b tail, String.utf8EncodeChar c = b :: tail ∧ 128 ≤ b.toNat) := by
  have code : c.val.toNat = c.toNat := rfl
  unfold String.utf8EncodeChar
  simp only [code]
  split
  · -- ASCII
    exact .inl ⟨by omega, rfl⟩
  · -- the first byte has its high bit set, whether two, three or four bytes are written
    refine .inr ⟨by omega, ?_⟩
    split
    · exact ⟨_, _, rfl, by rw [UInt8.toNat_ofNat']; omega⟩
    · split
      · exact ⟨_, _, rfl, by rw [UInt8.toNat_ofNat']; omega⟩
      · exact ⟨_, _, rfl, by rw [UInt8.toNat_ofNat']; omega⟩

/-- A digit is one byte of a text. -/
theorem utf8EncodeChar_of_toLower {c : Char} {n : Nat} (hn : n < 16)
    (h : c.toLower = Nat.digitChar n) :
    ∃ b, String.utf8EncodeChar c = [b] ∧ digitValue? b = some n := by
  have hc := toNat_lt_of_toLower hn h
  rcases utf8EncodeChar_cases c with ⟨-, hbytes⟩ | ⟨hge, -⟩
  · refine ⟨_, hbytes, (digitValue?_ascii ⟨c.toNat, hc⟩ ⟨n, hn⟩).2 ?_⟩
    rw [Char.ofNat_toNat]
    exact h
  · omega

/-- A character whose first byte is a digit is that digit, and has no other byte. -/
theorem of_digitValue?_head {c : Char} {b : UInt8} {tail : List UInt8} {n : Nat}
    (hbytes : String.utf8EncodeChar c = b :: tail) (h : digitValue? b = some n) :
    n < 16 ∧ c.toLower = Nat.digitChar n ∧ tail = [] := by
  have hn := lt_of_digitValue? h
  rcases utf8EncodeChar_cases c with ⟨hc, hbyte⟩ | ⟨-, b', tail', hbyte, hb⟩
  · rw [hbyte] at hbytes
    obtain ⟨rfl, rfl⟩ := List.cons.inj hbytes
    have hlower := (digitValue?_ascii ⟨c.toNat, hc⟩ ⟨n, hn⟩).1 h
    rw [Char.ofNat_toNat] at hlower
    exact ⟨hn, hlower, rfl⟩
  · rw [hbyte] at hbytes
    obtain ⟨rfl, rfl⟩ := List.cons.inj hbytes
    rw [digitValue?_of_le hb] at h
    cases h

theorem utf8EncodeChar_eq_cons (c : Char) : ∃ b tail, String.utf8EncodeChar c = b :: tail := by
  rcases utf8EncodeChar_cases c with ⟨-, hbytes⟩ | ⟨-, b, tail, hbytes, -⟩
  · exact ⟨_, _, hbytes⟩
  · exact ⟨b, tail, hbytes⟩

theorem digit_eq_ok_iff {b : UInt8} {position n : Nat} :
    digit b position = .ok n ↔ digitValue? b = some n := by
  unfold digit
  split <;> simp [*]

/-! ### Pairs -/

theorem readPairs_cons_cons_eq_ok_iff {position : Nat} {high low : UInt8} {rest bs : List UInt8} :
    readPairs position (high :: low :: rest) = .ok bs ↔
      ∃ h l tail, digitValue? high = some h ∧ digitValue? low = some l ∧
        readPairs (position + 2) rest = .ok tail ∧ bs = UInt8.ofNat (h * 16 + l) :: tail := by
  constructor
  · intro hread
    unfold readPairs at hread
    obtain ⟨h, hh, hread⟩ := of_bind_eq_ok hread
    obtain ⟨l, hl, hread⟩ := of_bind_eq_ok hread
    obtain ⟨tail, htail, hread⟩ := of_bind_eq_ok hread
    exact ⟨h, l, tail, digit_eq_ok_iff.1 hh, digit_eq_ok_iff.1 hl, htail,
      (Except.ok.inj hread).symm⟩
  · rintro ⟨h, l, tail, hh, hl, htail, rfl⟩
    rw [readPairs, digit_eq_ok_iff.2 hh, digit_eq_ok_iff.2 hl]
    show (do let tail ← readPairs (position + 2) rest
             pure (UInt8.ofNat (h * 16 + l) :: tail)) = _
    rw [htail]
    rfl

/-- The digits of a byte that was put together from two. -/
theorem digits_ofNat {h l : Nat} (hh : h < 16) (hl : l < 16) (bs : List UInt8) :
    digits (UInt8.ofNat (h * 16 + l) :: bs) =
      Nat.digitChar h :: Nat.digitChar l :: digits bs := by
  have hhigh : (h * 16 + l) / 16 = h := by omega
  have hlow : (h * 16 + l) % 16 = l := by omega
  rw [digits, UInt8.toNat_ofNat_of_lt' (show h * 16 + l < 256 by omega), hhigh, hlow]

/-- The pairs of a text of an even number of bytes, if they are read, are its digits. -/
theorem map_toLower_of_readPairs : ∀ {cs : List Char} {position : Nat} {bs : List UInt8},
    (cs.flatMap String.utf8EncodeChar).length % 2 = 0 →
    readPairs position (cs.flatMap String.utf8EncodeChar) = .ok bs →
    cs.map Char.toLower = digits bs
  | [], position, bs, _, h => by
    cases h
    rfl
  | [c], position, bs, heven, h => by
    obtain ⟨b, tail, hbytes⟩ := utf8EncodeChar_eq_cons c
    simp only [List.flatMap_cons, List.flatMap_nil, List.append_nil, hbytes] at heven h
    cases tail with
    | nil => cases heven
    | cons low tail =>
      obtain ⟨n, -, -, hn, -⟩ := readPairs_cons_cons_eq_ok_iff.1 h
      obtain ⟨-, -, htail⟩ := of_digitValue?_head hbytes hn
      cases htail
  | c :: c' :: cs, position, bs, heven, h => by
    obtain ⟨b, tail, hbytes⟩ := utf8EncodeChar_eq_cons c
    obtain ⟨b', tail', hbytes'⟩ := utf8EncodeChar_eq_cons c'
    simp only [List.flatMap_cons, hbytes, hbytes'] at heven h
    cases tail with
    | cons low tail =>
      obtain ⟨n, -, -, hn, -⟩ := readPairs_cons_cons_eq_ok_iff.1 h
      obtain ⟨-, -, htail⟩ := of_digitValue?_head hbytes hn
      cases htail
    | nil =>
      obtain ⟨n, n', others, hn, hn', hothers, rfl⟩ := readPairs_cons_cons_eq_ok_iff.1 h
      obtain ⟨hlt, hlower, -⟩ := of_digitValue?_head hbytes hn
      obtain ⟨hlt', hlower', rfl⟩ := of_digitValue?_head hbytes' hn'
      have hrest : (cs.flatMap String.utf8EncodeChar).length % 2 = 0 := by
        simp only [List.cons_append, List.nil_append, List.length_cons] at heven
        omega
      rw [digits_ofNat hlt hlt', List.map_cons, List.map_cons, hlower, hlower',
        map_toLower_of_readPairs hrest hothers]

/-- The digits of some bytes, in either case, are read as those bytes. -/
theorem readPairs_of_map_toLower (position : Nat) {bs : List UInt8} {cs : List Char}
    (h : cs.map Char.toLower = digits bs) :
    (cs.flatMap String.utf8EncodeChar).length % 2 = 0 ∧
      readPairs position (cs.flatMap String.utf8EncodeChar) = .ok bs := by
  induction bs generalizing position cs with
  | nil =>
    obtain rfl := List.map_eq_nil_iff.1 h
    exact ⟨rfl, rfl⟩
  | cons byte bs ih =>
    have hbyte : byte.toNat < 256 := byte.toNat_lt
    obtain ⟨c, cs, rfl, hc, h⟩ := List.map_eq_cons_iff.1 h
    obtain ⟨c', cs, rfl, hc', h⟩ := List.map_eq_cons_iff.1 h
    obtain ⟨b, hbytes, hb⟩ := utf8EncodeChar_of_toLower (by omega) hc
    obtain ⟨b', hbytes', hb'⟩ := utf8EncodeChar_of_toLower (by omega) hc'
    obtain ⟨heven, hread⟩ := ih (position + 2) h
    simp only [List.flatMap_cons, hbytes, hbytes', List.cons_append, List.nil_append]
    refine ⟨?_, readPairs_cons_cons_eq_ok_iff.2 ⟨_, _, bs, hb, hb', hread, ?_⟩⟩
    · simp only [List.length_cons]
      omega
    · rw [Nat.div_add_mod' byte.toNat 16, UInt8.ofNat_toNat]

/-! ### Texts -/

/-- A text is read as the bytes that it spells. -/
theorem decode_eq_ok_iff {text : String} {bs : List UInt8} :
    decode text = .ok bs ↔ Spells text bs := by
  unfold decode
  constructor
  · intro h
    dsimp only at h
    split at h
    · cases h
    · next heven => exact map_toLower_of_readPairs (Nat.mod_two_ne_one.1 heven) h
  · intro h
    obtain ⟨heven, hread⟩ := readPairs_of_map_toLower 0 h
    exact (if_neg (Nat.mod_two_ne_one.2 heven)).trans hread

/-- The text of some bytes spells them. -/
theorem spells_encode (bs : List UInt8) : Spells (encode bs) bs := by
  have hlower : ∀ n : Fin 16, (Nat.digitChar n).toLower = Nat.digitChar n := by decide
  unfold Spells encode
  rw [String.toList_ofList]
  induction bs with
  | nil => rfl
  | cons b bs ih =>
    have hb : b.toNat < 256 := b.toNat_lt
    rw [digits, List.map_cons, List.map_cons, hlower ⟨b.toNat / 16, by omega⟩,
      hlower ⟨b.toNat % 16, by omega⟩, ih]

/-- Pairs of digits are the digits of some bytes. -/
theorem exists_digits : ∀ {cs : List Char}, cs.length % 2 = 0 → (∀ c ∈ cs, IsDigit c) →
    ∃ bs, cs.map Char.toLower = digits bs
  | [], _, _ => ⟨[], rfl⟩
  | [c], heven, _ => by cases heven
  | high :: low :: cs, heven, hdigits => by
    simp only [List.forall_mem_cons] at hdigits
    obtain ⟨hhigh, hlow, hcs⟩ := hdigits
    obtain ⟨h, hh, hhigh⟩ := isDigit_iff.1 hhigh
    obtain ⟨l, hl, hlow⟩ := isDigit_iff.1 hlow
    have hlength : cs.length % 2 = 0 := by
      simp only [List.length_cons] at heven
      omega
    obtain ⟨bs, hbs⟩ := exists_digits hlength hcs
    exact ⟨UInt8.ofNat (h * 16 + l) :: bs, by
      rw [digits_ofNat hh hl, List.map_cons, List.map_cons, hhigh, hlow, hbs]⟩

theorem length_digits (bs : List UInt8) : (digits bs).length = 2 * bs.length := by
  induction bs with
  | nil => rfl
  | cons b bs ih =>
    simp only [digits, List.length_cons, ih]
    omega

theorem isDigit_of_mem_digits {c : Char} {bs : List UInt8} (h : c.toLower ∈ digits bs) :
    IsDigit c := by
  induction bs with
  | nil => cases h
  | cons b bs ih =>
    have hb : b.toNat < 256 := b.toNat_lt
    simp only [digits, List.mem_cons] at h
    rcases h with h | h | h
    · exact isDigit_iff.2 ⟨_, by omega, h⟩
    · exact isDigit_iff.2 ⟨_, by omega, h⟩
    · exact ih h

/-- A text spells some bytes just if it is pairs of digits. -/
theorem isText_iff {text : String} : IsText text ↔ ∃ bs, Spells text bs := by
  constructor
  · rintro ⟨heven, hdigits⟩
    exact exists_digits (by rwa [String.length_toList]) hdigits
  · rintro ⟨bs, h⟩
    constructor
    · rw [← String.length_toList, ← List.length_map Char.toLower, h, length_digits]
      exact Nat.mul_mod_right 2 bs.length
    · intro c hc
      have hlower : c.toLower ∈ digits bs := h ▸ List.mem_map_of_mem hc
      exact isDigit_of_mem_digits hlower

end LedgerAppendix.Hex
