import LedgerAppendix.Text
import Mathlib.Algebra.Ring.Nat
import Mathlib.Tactic.SplitIfs

/-!
# UTF-8 in both directions

Text and its bytes determine each other. `encode` is read back (`decode?_encode`), and what can be
read was written by it (`encode_of_decode?`).
-/

namespace LedgerAppendix

/-!
## Reading UTF-8 text back

The bytes of a string fall into the characters of the string and nothing else (`parts_encode`). So
they are read back as that string (`decode?_encode`), and showing them replaces nothing
(`lossy_encode`).

The argument follows one character. Its first byte is in a class of its own for every length, and in
each class the bounds on the second byte are just wide enough for the code points that are written
at that length.
-/

namespace Utf8

/-! ### One byte at a time -/

/-- A byte that starts a longer character ends no part. -/
theorem parts_first {b : UInt8} {rest : List UInt8} {code least most after : Nat}
    (h : first b = ([], .inside code least most after)) :
    State.start.parts (b :: rest) = (State.inside code least most after).parts rest := by
  simp only [State.parts, State.step, h, List.nil_append]

/-- The last byte of a character ends it. -/
theorem parts_last {code least most : Nat} {b : UInt8} {rest : List UInt8}
    (h : least ≤ b.toNat ∧ b.toNat ≤ most) :
    (State.inside code least most 0).parts (b :: rest) =
      some (Char.ofNat (code * 64 + b.toNat % 64)) :: State.start.parts rest := by
  simp only [State.parts, State.step, if_pos h, List.cons_append, List.nil_append]

/-- A byte inside a character adds six bits to the code point. -/
theorem parts_more {code least most after : Nat} {b : UInt8} {rest : List UInt8}
    (h : least ≤ b.toNat ∧ b.toNat ≤ most) :
    (State.inside code least most (after + 1)).parts (b :: rest) =
      (State.inside (code * 64 + b.toNat % 64) 0x80 0xBF after).parts rest := by
  simp only [State.parts, State.step, if_pos h, List.nil_append]

/-! ### One character at a time -/

theorem parts_two {n : Nat} (low : 0x80 ≤ n) (high : n < 0x800) (rest : List UInt8) :
    State.start.parts (UInt8.ofNat (n / 64 % 32 + 192) :: UInt8.ofNat (n % 64 + 128) :: rest) =
      some (Char.ofNat n) :: State.start.parts rest := by
  have e0 : (UInt8.ofNat (n / 64 % 32 + 192)).toNat = n / 64 % 32 + 192 :=
    UInt8.toNat_ofNat_of_lt' (show _ < 256 by omega)
  have e1 : (UInt8.ofNat (n % 64 + 128)).toNat = n % 64 + 128 :=
    UInt8.toNat_ofNat_of_lt' (show _ < 256 by omega)
  have lead : first (UInt8.ofNat (n / 64 % 32 + 192)) = ([], .inside (n / 64) 0x80 0xBF 0) := by
    unfold first
    rw [e0, if_neg (by omega), if_neg (by omega), if_pos (by omega)]
    congr 3
    omega
  rw [parts_first lead, parts_last (by omega), e1]
  congr 3
  omega

theorem parts_three {n : Nat} (low : 0x800 ≤ n) (high : n < 0xD800 ∨ 0xE000 ≤ n ∧ n < 0x10000)
    (rest : List UInt8) :
    State.start.parts (UInt8.ofNat (n / 4096 % 16 + 224) :: UInt8.ofNat (n / 64 % 64 + 128) ::
      UInt8.ofNat (n % 64 + 128) :: rest) = some (Char.ofNat n) :: State.start.parts rest := by
  have e0 : (UInt8.ofNat (n / 4096 % 16 + 224)).toNat = n / 4096 % 16 + 224 :=
    UInt8.toNat_ofNat_of_lt' (show _ < 256 by omega)
  have e1 : (UInt8.ofNat (n / 64 % 64 + 128)).toNat = n / 64 % 64 + 128 :=
    UInt8.toNat_ofNat_of_lt' (show _ < 256 by omega)
  have e2 : (UInt8.ofNat (n % 64 + 128)).toNat = n % 64 + 128 :=
    UInt8.toNat_ofNat_of_lt' (show _ < 256 by omega)
  have lead : ∃ least most, first (UInt8.ofNat (n / 4096 % 16 + 224)) =
      ([], .inside (n / 4096) least most 1) ∧ least ≤ n / 64 % 64 + 128 ∧
        n / 64 % 64 + 128 ≤ most := by
    unfold first
    rw [e0, if_neg (by omega), if_neg (by omega), if_neg (by omega)]
    by_cases hE0 : n / 4096 % 16 + 224 = 0xE0
    · rw [if_pos hE0]
      have code : n / 4096 = 0 := by omega
      exact ⟨0xA0, 0xBF, by rw [code], by omega, by omega⟩
    · rw [if_neg hE0]
      by_cases hED : n / 4096 % 16 + 224 = 0xED
      · rw [if_pos hED]
        have code : n / 4096 = 0x0D := by omega
        exact ⟨0x80, 0x9F, by rw [code], by omega, by omega⟩
      · rw [if_neg hED, if_pos (by omega)]
        have code : (n / 4096 % 16 + 224) % 16 = n / 4096 := by omega
        exact ⟨0x80, 0xBF, by rw [code], by omega, by omega⟩
  obtain ⟨least, most, lead, below, above⟩ := lead
  rw [parts_first lead, parts_more (by omega), parts_last (by omega), e1, e2]
  congr 3
  omega

theorem parts_four {n : Nat} (low : 0x10000 ≤ n) (high : n < 0x110000) (rest : List UInt8) :
    State.start.parts (UInt8.ofNat (n / 262144 % 8 + 240) :: UInt8.ofNat (n / 4096 % 64 + 128) ::
      UInt8.ofNat (n / 64 % 64 + 128) :: UInt8.ofNat (n % 64 + 128) :: rest) =
      some (Char.ofNat n) :: State.start.parts rest := by
  have e0 : (UInt8.ofNat (n / 262144 % 8 + 240)).toNat = n / 262144 % 8 + 240 :=
    UInt8.toNat_ofNat_of_lt' (show _ < 256 by omega)
  have e1 : (UInt8.ofNat (n / 4096 % 64 + 128)).toNat = n / 4096 % 64 + 128 :=
    UInt8.toNat_ofNat_of_lt' (show _ < 256 by omega)
  have e2 : (UInt8.ofNat (n / 64 % 64 + 128)).toNat = n / 64 % 64 + 128 :=
    UInt8.toNat_ofNat_of_lt' (show _ < 256 by omega)
  have e3 : (UInt8.ofNat (n % 64 + 128)).toNat = n % 64 + 128 :=
    UInt8.toNat_ofNat_of_lt' (show _ < 256 by omega)
  have lead : ∃ least most, first (UInt8.ofNat (n / 262144 % 8 + 240)) =
      ([], .inside (n / 262144) least most 2) ∧ least ≤ n / 4096 % 64 + 128 ∧
        n / 4096 % 64 + 128 ≤ most := by
    unfold first
    rw [e0, if_neg (by omega), if_neg (by omega), if_neg (by omega), if_neg (by omega),
      if_neg (by omega), if_neg (by omega)]
    by_cases hF0 : n / 262144 % 8 + 240 = 0xF0
    · rw [if_pos hF0]
      have code : n / 262144 = 0 := by omega
      exact ⟨0x90, 0xBF, by rw [code], by omega, by omega⟩
    · rw [if_neg hF0]
      by_cases hF4 : n / 262144 % 8 + 240 < 0xF4
      · rw [if_pos hF4]
        have code : (n / 262144 % 8 + 240) % 8 = n / 262144 := by omega
        exact ⟨0x80, 0xBF, by rw [code], by omega, by omega⟩
      · rw [if_neg hF4, if_pos (by omega)]
        have code : n / 262144 = 4 := by omega
        exact ⟨0x80, 0x8F, by rw [code], by omega, by omega⟩
  obtain ⟨least, most, lead, below, above⟩ := lead
  rw [parts_first lead, parts_more (by omega), parts_more (by omega), parts_last (by omega), e1, e2,
    e3]
  congr 3
  omega

/-- The bytes of a character are read as that character, whatever follows them. -/
theorem parts_utf8EncodeChar (c : Char) (rest : List UInt8) :
    State.start.parts (String.utf8EncodeChar c ++ rest) = some c :: State.start.parts rest := by
  have valid : c.toNat < 0xD800 ∨ 0xE000 ≤ c.toNat ∧ c.toNat < 0x110000 := by
    rcases c.valid with h | h
    · exact .inl h
    · exact .inr ⟨h.1, h.2⟩
  have hc : Char.ofNat c.toNat = c := Char.ofNat_toNat c
  have code : c.val.toNat = c.toNat := rfl
  unfold String.utf8EncodeChar
  simp only [code]
  by_cases h1 : c.toNat ≤ 127
  · -- one byte, and the machine is back at the start
    have e : (UInt8.ofNat c.toNat).toNat = c.toNat :=
      UInt8.toNat_ofNat_of_lt' (show _ < 256 by omega)
    have lead : first (UInt8.ofNat c.toNat) = ([some c], .start) := by
      unfold first
      rw [e, if_pos (by omega), hc]
    rw [if_pos h1]
    simp only [List.cons_append, List.nil_append, State.parts, State.step, lead]
  · rw [if_neg h1]
    by_cases h2 : c.toNat ≤ 2047
    · -- two bytes
      rw [if_pos h2]
      exact (parts_two (by omega) (by omega) rest).trans (by rw [hc])
    · rw [if_neg h2]
      by_cases h3 : c.toNat ≤ 65535
      · -- three bytes
        rw [if_pos h3]
        exact (parts_three (by omega) (by omega) rest).trans (by rw [hc])
      · -- four bytes
        rw [if_neg h3]
        exact (parts_four (by omega) (by omega) rest).trans (by rw [hc])

/-! ### Whole texts -/

/-- The bytes of a string fall into its characters. -/
theorem parts_encode (s : String) : parts (encode s) = s.toList.map some := by
  unfold parts encode
  induction s.toList with
  | nil => rfl
  | cons c rest ih => rw [List.flatMap_cons, parts_utf8EncodeChar, ih, List.map_cons]

/-- The bytes of a string are read back as the string. -/
theorem decode?_encode (s : String) : decode? (encode s) = some s := by
  unfold decode?
  rw [parts_encode]
  have h : (s.toList.map some).mapM id = some s.toList := by
    induction s.toList with
    | nil => rfl
    | cons c rest ih => simp [List.mapM_cons, ih]
  rw [h, Option.map_some, String.ofList_toList]

/-- Nothing is replaced in the bytes of a string. -/
theorem lossy_encode (s : String) : lossy (encode s) = s := by
  unfold lossy
  rw [parts_encode, List.map_map]
  have h : ((fun part : Option Char => part.getD '\uFFFD') ∘ some) = id := rfl
  rw [h, List.map_id, String.ofList_toList]

end Utf8

/-!
## The one spelling of a text

Bytes that are read as a text are the bytes of that text (`encode_of_decode?`), so no text has two
spellings, and showing bytes that are UTF-8 as text loses nothing (`lossy_of_decode?`).

This is `parts_encode` the other way round. A character is ended only by a byte that the machine
waits for, and the code point keeps the six low bits of each byte after the first. These bytes
follow from the code point, then, and so does the first one by the bounds on the second.
-/

namespace Utf8

/-! ### The bytes after the first -/

/-- The last bytes of a character with a code point, each with six of its bits. -/
def trail : (after : Nat) → (n : Nat) → List UInt8
  | 0, n => [UInt8.ofNat (n % 64 + 128)]
  | after + 1, n => UInt8.ofNat (n / 64 ^ (after + 1) % 64 + 128) :: trail after n

/-- A byte that cannot continue a character leaves a piece. -/
theorem parts_broken {code least most after : Nat} {b : UInt8} {rest : List UInt8}
    (h : ¬(least ≤ b.toNat ∧ b.toNat ≤ most)) :
    (State.inside code least most after).parts (b :: rest) =
      none :: State.start.parts (b :: rest) := by
  simp only [State.parts, State.step, if_neg h, List.cons_append]

theorem trailing_byte {b : UInt8} (low : 0x80 ≤ b.toNat) (high : b.toNat ≤ 0xBF) :
    UInt8.ofNat (b.toNat % 64 + 128) = b := by
  have hb : b.toNat % 64 + 128 = b.toNat := by omega
  rw [hb, UInt8.ofNat_toNat]

/-- Where nothing but characters comes out, the bytes inside a character are those of its code
    point. -/
theorem of_parts_inside {code least most after : Nat} {bs : List UInt8} {cs : List Char}
    (hleast : 0x80 ≤ least) (hmost : most ≤ 0xBF)
    (h : (State.inside code least most after).parts bs = cs.map some) :
    ∃ n rest cs', bs = trail after n ++ rest ∧ n / 64 ^ (after + 1) = code ∧
      (least ≤ n / 64 ^ after % 64 + 128 ∧ n / 64 ^ after % 64 + 128 ≤ most) ∧
      cs = Char.ofNat n :: cs' ∧ State.start.parts rest = cs'.map some := by
  induction after generalizing code least most bs with
  | zero =>
    rcases bs with _ | ⟨b, rest⟩
    · -- the text ends inside the character
      rcases cs with _ | ⟨c, cs⟩ <;> simp [State.parts] at h
    · -- one byte is left to read
      by_cases hb : least ≤ b.toNat ∧ b.toNat ≤ most
      · rw [parts_last hb] at h
        rcases cs with _ | ⟨c, cs⟩
        · simp at h
        · simp only [List.map_cons, List.cons.injEq, Option.some.injEq] at h
          obtain ⟨rfl, hrest⟩ := h
          have hlow : (code * 64 + b.toNat % 64) % 64 = b.toNat % 64 := by omega
          refine ⟨_, rest, cs, ?_, by omega, ?_, rfl, hrest⟩
          · -- the byte is the low six bits of the code point
            rw [trail, hlow, trailing_byte (by omega) (by omega)]
            rfl
          · -- and it is in the bounds
            simp only [Nat.pow_zero, Nat.div_one, hlow]
            omega
      · -- a byte that cannot continue leaves a piece
        rw [parts_broken hb] at h
        rcases cs with _ | ⟨c, cs⟩ <;> simp at h
  | succ after ih =>
    rcases bs with _ | ⟨b, rest⟩
    · -- the text ends inside the character
      rcases cs with _ | ⟨c, cs⟩ <;> simp [State.parts] at h
    · -- one byte is read, and at least one more is waited for
      by_cases hb : least ≤ b.toNat ∧ b.toNat ≤ most
      · rw [parts_more hb] at h
        obtain ⟨n, rest', cs', rfl, hn, -, hcs, hrest⟩ := ih (by omega) (by omega) h
        refine ⟨n, rest', cs', ?_, ?_, ?_, hcs, hrest⟩
        · -- the byte is six bits of the code point, above those of the later bytes
          have hlow : n / 64 ^ (after + 1) % 64 = b.toNat % 64 := by omega
          rw [trail, hlow, trailing_byte (by omega) (by omega)]
          rfl
        · -- dropping these six bits as well leaves the code
          rw [Nat.pow_succ, ← Nat.div_div_eq_div_mul, hn]
          omega
        · -- and the byte is in the bounds
          omega
      · -- a byte that cannot continue leaves a piece
        rw [parts_broken hb] at h
        rcases cs with _ | ⟨c, cs⟩ <;> simp at h

/-! ### The first byte -/

theorem utf8EncodeChar_ofNat {n : Nat} (h : n.isValidChar) :
    String.utf8EncodeChar (Char.ofNat n) =
      if n ≤ 127 then [UInt8.ofNat n]
      else if n ≤ 2047 then UInt8.ofNat (n / 64 % 32 + 192) :: trail 0 n
      else if n ≤ 65535 then UInt8.ofNat (n / 4096 % 16 + 224) :: trail 1 n
      else UInt8.ofNat (n / 262144 % 8 + 240) :: trail 2 n := by
  have hn : (Char.ofNat n).val.toNat = n := by
    rw [Char.ofNat, dif_pos h]
    rfl
  simp only [String.utf8EncodeChar, hn, trail, Nat.reduceAdd, Nat.reducePow]

theorem utf8_two {n : Nat} {b : UInt8} (hb : n / 64 + 192 = b.toNat) (low : 0x80 ≤ n)
    (high : n < 0x800) : String.utf8EncodeChar (Char.ofNat n) = b :: trail 0 n := by
  have hlead : UInt8.ofNat (n / 64 % 32 + 192) = b := by
    rw [Nat.mod_eq_of_lt (by omega), hb, UInt8.ofNat_toNat]
  rw [utf8EncodeChar_ofNat (.inl (by omega)), if_neg (by omega), if_pos (by omega), hlead]

theorem utf8_three {n : Nat} {b : UInt8} (hb : n / 4096 + 224 = b.toNat) (low : 0x800 ≤ n)
    (high : n < 0xD800 ∨ 0xE000 ≤ n ∧ n < 0x10000) :
    String.utf8EncodeChar (Char.ofNat n) = b :: trail 1 n := by
  have hlead : UInt8.ofNat (n / 4096 % 16 + 224) = b := by
    rw [Nat.mod_eq_of_lt (by omega), hb, UInt8.ofNat_toNat]
  have hvalid : n.isValidChar := high.imp id fun h => ⟨by omega, by omega⟩
  rw [utf8EncodeChar_ofNat hvalid, if_neg (by omega), if_neg (by omega), if_pos (by omega), hlead]

theorem utf8_four {n : Nat} {b : UInt8} (hb : n / 262144 + 240 = b.toNat) (low : 0x10000 ≤ n)
    (high : n < 0x110000) : String.utf8EncodeChar (Char.ofNat n) = b :: trail 2 n := by
  have hlead : UInt8.ofNat (n / 262144 % 8 + 240) = b := by
    rw [Nat.mod_eq_of_lt (by omega), hb, UInt8.ofNat_toNat]
  rw [utf8EncodeChar_ofNat (.inr ⟨by omega, by omega⟩), if_neg (by omega), if_neg (by omega),
    if_neg (by omega), hlead]

/-- A byte that ends a part by itself is a character of one byte, or leaves a piece. -/
theorem of_first_start {b : UInt8} {ended : List (Option Char)} (h : first b = (ended, .start)) :
    ended = [none] ∨
      ∃ c, ended = [some c] ∧ String.utf8EncodeChar c = [b] := by
  unfold first at h
  dsimp only at h
  split_ifs at h with hascii
  · cases h
    refine .inr ⟨_, rfl, ?_⟩
    rw [utf8EncodeChar_ofNat (.inl (by omega)), if_pos (by omega), UInt8.ofNat_toNat]
  all_goals first | (cases h; exact .inl rfl) | (simp at h)

/-- A byte that starts a longer character is the first byte of every code point that the bounds on
    the second byte allow. -/
theorem of_first_inside {b : UInt8} {ended : List (Option Char)} {code least most after : Nat}
    (h : first b = (ended, .inside code least most after)) :
    ended = [] ∧ 0x80 ≤ least ∧ most ≤ 0xBF ∧
      ∀ n, n / 64 ^ (after + 1) = code → least ≤ n / 64 ^ after % 64 + 128 →
        n / 64 ^ after % 64 + 128 ≤ most →
        String.utf8EncodeChar (Char.ofNat n) = b :: trail after n := by
  unfold first at h
  dsimp only at h
  split_ifs at h <;> simp only [Prod.mk.injEq, reduceCtorEq, and_false, State.inside.injEq] at h <;>
    obtain ⟨rfl, rfl, rfl, rfl, rfl⟩ := h <;>
    refine ⟨rfl, by omega, by omega, fun n hn low high => ?_⟩ <;>
    simp only [Nat.reduceAdd, Nat.reducePow, Nat.div_one] at hn low high
  · -- two bytes
    exact utf8_two (by omega) (by omega) (by omega)
  · -- three bytes, the second one bounded below: nothing that two bytes can write
    exact utf8_three (by omega) (by omega) (by omega)
  · -- three bytes, the second one bounded above: no surrogates
    exact utf8_three (by omega) (by omega) (by omega)
  · -- three bytes
    exact utf8_three (by omega) (by omega) (by omega)
  · -- four bytes, the second one bounded below: nothing that three bytes can write
    exact utf8_four (by omega) (by omega) (by omega)
  · -- four bytes
    exact utf8_four (by omega) (by omega) (by omega)
  · -- four bytes, the second one bounded above: nothing past the last code point
    exact utf8_four (by omega) (by omega) (by omega)

/-! ### Whole texts -/

/-- Bytes that fall into characters are the bytes of these. -/
theorem of_parts {bs : List UInt8} {cs : List Char} (h : parts bs = cs.map some) :
    cs.flatMap String.utf8EncodeChar = bs := by
  unfold parts at h
  induction hlength : bs.length using Nat.strongRecOn generalizing bs cs with
  | ind length ih =>
    subst hlength
    rcases bs with _ | ⟨b, rest⟩
    · -- no bytes: no characters
      rcases cs with _ | ⟨c, cs⟩
      · rfl
      · simp [State.parts] at h
    · rcases hfirst : first b with ⟨ended, state⟩
      simp only [State.parts, State.step, hfirst] at h
      cases state with
      | start =>
        rcases of_first_start hfirst with rfl | ⟨c, rfl, hchar⟩
        · -- the byte leaves a piece, which is no character
          rcases cs with _ | ⟨c, cs⟩ <;> simp at h
        · -- the byte is a character by itself
          rcases cs with _ | ⟨c', cs⟩
          · simp at h
          · simp only [List.cons_append, List.nil_append, List.map_cons, List.cons.injEq,
              Option.some.injEq] at h
            obtain ⟨rfl, hrest⟩ := h
            rw [List.flatMap_cons, hchar, ih _ (by simp) hrest rfl]
            rfl
      | inside code least most after =>
        obtain ⟨rfl, hleast, hmost, hchar⟩ := of_first_inside hfirst
        rw [List.nil_append] at h
        obtain ⟨n, rest', cs', rfl, hn, ⟨low, high⟩, rfl, hrest⟩ := of_parts_inside hleast hmost h
        have hshorter : rest'.length < (b :: (trail after n ++ rest')).length := by
          rw [List.length_cons, List.length_append]
          omega
        rw [List.flatMap_cons, hchar n hn low high, ih _ hshorter hrest rfl]
        rfl

theorem of_mapM_id {parts : List (Option Char)} {cs : List Char} (h : parts.mapM id = some cs) :
    parts = cs.map some := by
  induction parts generalizing cs with
  | nil =>
    cases h
    rfl
  | cons part parts ih =>
    rw [List.mapM_cons] at h
    obtain ⟨c, hpart, h⟩ := Option.bind_eq_some_iff.1 h
    obtain ⟨rest, hrest, h⟩ := Option.bind_eq_some_iff.1 h
    cases h
    rw [List.map_cons, ← ih hrest]
    exact congrArg (· :: parts) hpart

/-- Bytes that are read as a text are the bytes of that text. -/
theorem encode_of_decode? {bs : List UInt8} {text : String} (h : decode? bs = some text) :
    encode text = bs := by
  obtain ⟨cs, hcs, rfl⟩ := Option.map_eq_some_iff.1 h
  rw [encode, String.toList_ofList, of_parts (of_mapM_id hcs)]

/-- Bytes are read as a text just if they are the bytes of one. -/
theorem isSome_decode?_iff {bs : List UInt8} :
    (decode? bs).isSome ↔ ∃ text, encode text = bs := by
  constructor
  · intro h
    obtain ⟨text, htext⟩ := Option.isSome_iff_exists.1 h
    exact ⟨text, encode_of_decode? htext⟩
  · rintro ⟨text, rfl⟩
    rw [decode?_encode]
    rfl

/-- Bytes that are UTF-8 are shown as the text that they are. -/
theorem lossy_of_decode? {bs : List UInt8} {text : String} (h : decode? bs = some text) :
    lossy bs = text := by
  rw [← encode_of_decode? h, lossy_encode]

end Utf8

end LedgerAppendix
