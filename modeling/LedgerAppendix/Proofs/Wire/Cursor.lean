import LedgerAppendix.Proofs.Wire.Requests

/-!
# The cursor on bytes from strangers

Whoever sends bytes decides what they are, and how long the fields are that they announce. A reader
may also go on after a refusal, from where it was left. Here a cursor takes any operations in any
order, each of them with a value or with a refusal, and it is shown where it can stand afterwards:
inside the bytes, behind just what was consumed so far, and further on for a refused field in two
cases only, when a length is read that is too large and when the version that is read is zero.
-/

namespace LedgerAppendix

namespace Decoder

variable {α β : Type}

/-! ### Refusals of single fields -/

theorem bytes_of_remaining_lt {count : Nat} {c : Cursor} (h : c.remaining < count) :
    bytes count c = .error (.truncated count c.remaining) c :=
  bytes_eq_error_iff.2 ⟨h, rfl, rfl⟩

/-- What becomes of the value does not show in a refusal. -/
theorem bind_pure_eq_error_iff {d : Decoder α} {f : α → β} {c c' : Cursor} {e : AppendixError} :
    (d >>= fun a => pure (f a)) c = .error e c' ↔ d c = .error e c' := by
  rw [bind_eq_error_iff]
  constructor
  · rintro (h | ⟨a, c₁, -, hpure⟩)
    · exact h
    · cases hpure
  · exact .inl

theorem eq_advance_of_byte {c c' : Cursor} {b : UInt8} (h : byte c = .ok b c') :
    c' = c.advance 1 :=
  ((reads_byte c b c').1 h).2.2

theorem eq_advance_of_word32 {c c' : Cursor} {word : UInt32} (h : word32 c = .ok word c') :
    c' = c.advance 4 := by
  have hc := ((reads_word32 c word c').1 h).2.2
  rwa [LittleEndian.length_bytes] at hc

end Decoder

/-! ### Operations on a cursor -/

/-- A field that can be read. An array of some size is that many bytes. -/
inductive FieldReading where
  | byte
  | word32
  | word64
  | bytes (count : Nat)
  | length (field : String) (max : Nat)
  | version (transactionVersion : UInt8)

namespace FieldReading

abbrev Value : FieldReading → Type
  | byte => UInt8
  | word32 => UInt32
  | word64 => UInt64
  | bytes _ => List UInt8
  | length .. => LengthField
  | version _ => UInt8

def decoder : (f : FieldReading) → Decoder f.Value
  | byte => Decoder.byte
  | word32 => Decoder.word32
  | word64 => Decoder.word64
  | bytes count => Decoder.bytes count
  | length field max => Decoder.length field max
  | version transactionVersion => Version.read transactionVersion

/-- How many bytes the field takes. The version of a legacy transaction's appendices takes none. -/
def width : FieldReading → Nat
  | byte => 1
  | word32 => 4
  | word64 => 8
  | bytes count => count
  | length .. => 4
  | version transactionVersion => if transactionVersion = 0 then 0 else 1

/-- How a field is refused, and where the cursor stands then. -/
inductive Fails : FieldReading → Cursor → AppendixError → Cursor → Prop
  | short {f : FieldReading} {c : Cursor} (h : c.remaining < f.width) :
      Fails f c (.truncated f.width c.remaining) c
  | tooLong {field : String} {max : Nat} {c : Cursor} {word : UInt32}
      (hword : Decoder.word32 c = .ok word (c.advance 4))
      (hmax : max < (LengthField.unpack word).length) :
      Fails (length field max) c (.lengthExceeded field (LengthField.unpack word).length max)
        (c.advance 4)
  | zeroVersion {transactionVersion : UInt8} {c : Cursor} (hmodern : transactionVersion ≠ 0)
      (hzero : Decoder.byte c = .ok 0 (c.advance 1)) :
      Fails (version transactionVersion) c (.invalidVersion 0 transactionVersion) (c.advance 1)

variable {c c' : Cursor} {e : AppendixError}

theorem fails_of_bytes {f : FieldReading} (h : Decoder.bytes f.width c = .error e c') :
    f.Fails c e c' := by
  obtain ⟨hshort, rfl, rfl⟩ := Decoder.bytes_eq_error_iff.1 h
  exact .short hshort

theorem length_eq_error_iff {field : String} {max : Nat} :
    Decoder.length field max c = .error e c' ↔ (length field max).Fails c e c' := by
  unfold Decoder.length
  rw [Decoder.bind_eq_error_iff]
  constructor
  · rintro (hshort | ⟨word, c₁, hword, hlength⟩)
    · -- the word cannot be read
      exact fails_of_bytes (Decoder.bind_pure_eq_error_iff.1 hshort)
    · -- the length in the word is too large
      obtain rfl := Decoder.eq_advance_of_word32 hword
      split at hlength
      · cases hlength
      · next hmax =>
        cases hlength
        exact .tooLong hword (Nat.not_le.1 hmax)
  · intro hfails
    cases hfails with
    | short h => exact .inl (Decoder.bind_pure_eq_error_iff.2 (Decoder.bytes_of_remaining_lt h))
    | tooLong hword hmax =>
      refine .inr ⟨_, _, hword, ?_⟩
      rw [if_neg (Nat.not_le.2 hmax)]
      rfl

theorem version_eq_error_iff {transactionVersion : UInt8} :
    Version.read transactionVersion c = .error e c' ↔
      (version transactionVersion).Fails c e c' := by
  unfold Version.read
  split
  · next hlegacy =>
    -- a legacy version takes no bytes, and reading it does not fail
    constructor
    · intro h
      cases h
    · intro hfails
      cases hfails with
      | short h => simp [width, hlegacy] at h
      | zeroVersion hmodern => exact absurd hlegacy hmodern
  · next hmodern =>
    have hwidth : (version transactionVersion).width = 1 := if_neg hmodern
    rw [Decoder.bind_eq_error_iff]
    constructor
    · rintro (hshort | ⟨b, c₁, hbyte, hversion⟩)
      · -- the byte cannot be read
        refine fails_of_bytes ?_
        rw [hwidth]
        exact Decoder.bind_pure_eq_error_iff.1 hshort
      · -- the byte is zero
        obtain rfl := Decoder.eq_advance_of_byte hbyte
        split at hversion
        · next hzero =>
          subst hzero
          cases hversion
          exact .zeroVersion hmodern hbyte
        · cases hversion
    · intro hfails
      cases hfails with
      | short h =>
        rw [hwidth] at h ⊢
        exact .inl (Decoder.bind_pure_eq_error_iff.2 (Decoder.bytes_of_remaining_lt h))
      | zeroVersion _ hzero => exact .inr ⟨0, _, hzero, rfl⟩

/-- A field that only takes its bytes fails only where there are too few of them. -/
theorem eq_error_iff_of_bytes {f : FieldReading} {g : List UInt8 → f.Value}
    (hf : f.decoder = Decoder.bytes f.width >>= fun bs => pure (g bs))
    (hshort : f.Fails c e c' → Decoder.bytes f.width c = .error e c') :
    f.decoder c = .error e c' ↔ f.Fails c e c' := by
  rw [hf, Decoder.bind_pure_eq_error_iff]
  exact ⟨fails_of_bytes, hshort⟩

theorem decoder_eq_error_iff (f : FieldReading) : f.decoder c = .error e c' ↔ f.Fails c e c' := by
  cases f with
  | byte => exact eq_error_iff_of_bytes rfl fun | .short h => Decoder.bytes_of_remaining_lt h
  | word32 => exact eq_error_iff_of_bytes rfl fun | .short h => Decoder.bytes_of_remaining_lt h
  | word64 => exact eq_error_iff_of_bytes rfl fun | .short h => Decoder.bytes_of_remaining_lt h
  | bytes count =>
    refine ⟨fails_of_bytes (f := bytes count), fun hfails => ?_⟩
    cases hfails with
    | short h => exact Decoder.bytes_of_remaining_lt h
  | length field max => exact length_eq_error_iff
  | version transactionVersion => exact version_eq_error_iff

theorem isScript_decoder (f : FieldReading) : f.decoder.IsScript := by
  cases f with
  | byte => exact Decoder.isScript_byte
  | word32 => exact Decoder.isScript_word32
  | word64 => exact Decoder.isScript_word64
  | bytes count => exact Decoder.isScript_bytes count
  | length field max => exact Decoder.isScript_length field max
  | version transactionVersion => exact Version.isScript_read transactionVersion

end FieldReading

/-- Something that can be read: a field, an appendix of a kind, or the whole region that some flags
    announce. -/
inductive Reading where
  | field (f : FieldReading)
  | appendix (kind : Kind) (transactionVersion : UInt8) (limits : Limits)
  | region (flags : UInt32) (transactionVersion : UInt8) (limits : Limits)

namespace Reading

abbrev Value : Reading → Type
  | field f => f.Value
  | appendix .. => Appendix
  | region .. => AppendixSet

def decoder : (r : Reading) → Decoder r.Value
  | field f => f.decoder
  | appendix kind transactionVersion limits => Appendix.decode kind transactionVersion limits
  | region flags transactionVersion limits =>
    AppendixSet.decodeFrom flags transactionVersion limits

theorem isScript_decoder (r : Reading) : r.decoder.IsScript := by
  cases r with
  | field f => exact f.isScript_decoder
  | appendix kind => exact Appendix.isScript_decode _ _ kind
  | region flags => exact AppendixSet.isScript_decodeFrom _ _ flags

end Reading

/-! ### One operation after the other -/

namespace Cursor

/-- Where the cursor stands after some operations, refused or not. -/
def after (c : Cursor) (rs : List Reading) : Cursor := rs.foldl (fun c r => r.decoder.stop c) c

/-- What each of some operations consumes. -/
def consumed (c : Cursor) : List Reading → List (List UInt8)
  | [] => []
  | r :: rs => c.between (r.decoder.stop c) :: (r.decoder.stop c).consumed rs

theorem between_append {c c₁ c₂ : Cursor} (hdata : c₁.data = c.data)
    (h₁ : c.position ≤ c₁.position) (h₂ : c₁.position ≤ c₂.position) :
    c.between c₁ ++ c₁.between c₂ = c.between c₂ := by
  have hsplit : c₂.position - c.position =
      (c₁.position - c.position) + (c₂.position - c₁.position) := by
    omega
  have hrest : c₁.rest = c.rest.drop (c₁.position - c.position) := by
    rw [rest, rest, hdata, List.drop_drop, Nat.add_sub_cancel' h₁]
  rw [between, between, between, hsplit, List.take_add, hrest]

/-- An operation leads forward and not out of the bytes. -/
theorem stop_inside (r : Reading) (c : Cursor) (hc : c.position ≤ c.data.length) :
    (r.decoder.stop c).data = c.data ∧ c.position ≤ (r.decoder.stop c).position ∧
      (r.decoder.stop c).position ≤ c.data.length := by
  obtain ⟨s, hs⟩ := r.isScript_decoder
  have hpassage := s.passage c hc
  rw [hs] at hpassage
  exact ⟨hpassage.data, hpassage.forward, hpassage.inBounds⟩

/-- Neither do any number of operations, and they consume what they pass. -/
theorem after_inside (rs : List Reading) (c : Cursor) (hc : c.position ≤ c.data.length) :
    (c.after rs).data = c.data ∧ c.position ≤ (c.after rs).position ∧
      (c.after rs).position ≤ c.data.length ∧
      (c.consumed rs).flatten = c.between (c.after rs) := by
  induction rs generalizing c with
  | nil => simp [after, consumed, between, hc]
  | cons r rs ih =>
    obtain ⟨hdata, hforward, hinside⟩ := stop_inside r c hc
    have hstart : (r.decoder.stop c).position ≤ (r.decoder.stop c).data.length := by rwa [hdata]
    obtain ⟨hdata', hforward', hinside', hconsumed⟩ := ih (r.decoder.stop c) hstart
    refine ⟨hdata'.trans hdata, Nat.le_trans hforward hforward', ?_, ?_⟩
    · rwa [hdata] at hinside'
    · rw [consumed, List.flatten_cons, hconsumed]
      exact between_append hdata hforward hforward'

/-- Whatever the bytes are, and whatever was tried on them so far, read or refused: the cursor is
    inside the bytes, and what the operations consumed one after the other is just what lies before
    it. Any operation that comes next asks for slices inside the bytes only, moves the cursor over
    those that it is handed out and never backwards. A field is refused without moving the cursor,
    except that a length is refused behind its word when it is too large, and a version behind its
    byte when a modern transaction has a zero there. -/
theorem reads_inside (data : List UInt8) (rs : List Reading) :
    let c := (ofBytes data).after rs
    c.data = data ∧ c.position + c.remaining = data.length ∧
      ((ofBytes data).consumed rs).flatten = data.take c.position ∧
      (∀ r : Reading, ∃ s : Script r.Value,
        s.run = r.decoder ∧ Passage c (s.requests c) (r.decoder.stop c)) ∧
      ∀ (f : FieldReading) (e : AppendixError) (c' : Cursor),
        f.decoder c = .error e c' ↔ f.Fails c e c' := by
  intro c
  obtain ⟨hdata, -, hinside, hconsumed⟩ := after_inside rs (ofBytes data) (Nat.zero_le _)
  have hdata : c.data = data := hdata
  have hc : c.position ≤ c.data.length := by
    rw [hdata]
    exact hinside
  refine ⟨hdata, ?_, ?_, ?_, fun f _ _ => f.decoder_eq_error_iff⟩
  · rw [remaining, hdata]
    exact Nat.add_sub_cancel' hinside
  · rw [hconsumed]
    simp [between, rest, ofBytes, c]
  · intro r
    obtain ⟨s, hs⟩ := r.isScript_decoder
    refine ⟨s, hs, ?_⟩
    rw [← hs]
    exact s.passage c hc

end Cursor

end LedgerAppendix
