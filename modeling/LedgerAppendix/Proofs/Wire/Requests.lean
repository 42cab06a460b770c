import LedgerAppendix.Proofs.Wire.Reads
import LedgerAppendix.Wire
import Mathlib.Tactic.Choose

/-!
# Requests for bytes

All that a decoder does with its bytes is to ask for the next few of them. It goes on with what it
is handed out, or it stops. A `Script` says for one decoder which requests it makes and when it
stops, and `Decoder.IsScript` says that a decoder is run by a script; that is shown for every
decoder there is, by following its text. Whatever holds of all scripts then holds of all of them.

The main statement is `Script.passage`: from a cursor that stands inside its bytes, the requests of
a script never leave these bytes, refused or not, and what was handed out is just what lies between
the cursor at the start and the one where the script stopped.
-/

namespace LedgerAppendix

/-! ### Scripts -/

/-- What a decoder does, request by request. Whatever it refuses is malformed. -/
inductive Script (α : Type) where
  | done (a : α)
  | refuse (e : AppendixError) (he : e.errorClass = .malformed)
  | ask (count : Nat) (next : List UInt8 → Script α)

/-- A request for the bytes that come next, made at a cursor. -/
structure Request where
  cursor : Cursor
  count : Nat

/-- The bytes that are handed out, which are none where there are too few. -/
def Request.answer (q : Request) : List UInt8 :=
  match Decoder.bytes q.count q.cursor with
  | .ok bs _ => bs
  | .error .. => []

namespace Script

variable {α β : Type}

def run : Script α → Decoder α
  | done a => pure a
  | refuse e _ => Decoder.refuse e
  | ask count next => Decoder.bytes count >>= fun bs => (next bs).run

def bind : Script α → (α → Script β) → Script β
  | done a, k => k a
  | refuse e he, _ => refuse e he
  | ask count next, k => ask count fun bs => (next bs).bind k

/-- The requests that are made from a cursor on. Only the last one can be in vain. -/
def requests : Script α → Cursor → List Request
  | done _, _ => []
  | refuse .., _ => []
  | ask count next, c =>
    ⟨c, count⟩ ::
      match Decoder.bytes count c with
      | .ok bs c' => (next bs).requests c'
      | .error .. => []

theorem run_bind (s : Script α) (k : α → Script β) :
    (s.bind k).run = s.run >>= fun a => (k a).run := by
  induction s with
  | done a => simp [bind, run]
  | refuse e he => rfl
  | ask count next ih => simp [bind, run, ih]

end Script

/-! ### From where to where -/

/-- Where a decoder stops, be it with a value or with a refusal. -/
def Decoder.stop {α : Type} (d : Decoder α) (c : Cursor) : Cursor :=
  match d c with
  | .ok _ c' => c'
  | .error _ c' => c'

/-- The bytes from one cursor to another. -/
def Cursor.between (c c' : Cursor) : List UInt8 := c.rest.take (c'.position - c.position)

/-- The request is made between two cursors, and if there are as many bytes left as it asks for,
    these lie between the two cursors as well. -/
structure Request.Within (q : Request) (c c' : Cursor) : Prop where
  data : q.cursor.data = c.data
  not_before : c.position ≤ q.cursor.position
  not_after : q.cursor.position ≤ c'.position
  slice : q.count ≤ q.cursor.remaining → q.cursor.position + q.count ≤ c'.position

/-- Some requests lead forward from one cursor to another, and not out of the bytes. -/
structure Passage (c : Cursor) (qs : List Request) (c' : Cursor) : Prop where
  data : c'.data = c.data
  forward : c.position ≤ c'.position
  inBounds : c'.position ≤ c.data.length
  within : ∀ q ∈ qs, q.Within c c'
  answers : qs.flatMap Request.answer = c.between c'

namespace Passage

variable {c c' : Cursor} {qs : List Request} {count : Nat}

theorem nil (hc : c.position ≤ c.data.length) : Passage c [] c := by
  refine ⟨rfl, Nat.le_refl _, hc, by simp, ?_⟩
  simp [Cursor.between]

theorem of_short (hc : c.position ≤ c.data.length) (hshort : c.remaining < count) :
    Passage c [⟨c, count⟩] c := by
  have hrefused : ¬count ≤ c.remaining := Nat.not_le.2 hshort
  refine ⟨rfl, Nat.le_refl _, hc, ?_, ?_⟩
  · simp only [List.mem_singleton, forall_eq]
    exact ⟨rfl, Nat.le_refl _, Nat.le_refl _, fun hfits => absurd hfits hrefused⟩
  · simp [Cursor.between, Request.answer, Decoder.bytes, hrefused]

/-- A request that is answered comes before those that are made afterwards. -/
theorem cons (hfits : count ≤ c.remaining) (h : Passage (c.advance count) qs c') :
    Passage c (⟨c, count⟩ :: qs) c' := by
  have hmoved : c.position + count ≤ c'.position := h.forward
  have hforward : c.position ≤ c'.position := Nat.le_of_add_right_le hmoved
  refine ⟨h.data, hforward, h.inBounds, ?_, ?_⟩
  · intro q hq
    rcases List.mem_cons.1 hq with rfl | hq
    · exact ⟨rfl, Nat.le_refl _, hforward, fun _ => hmoved⟩
    · obtain ⟨hdata, hstart, hstop, hslice⟩ := h.within q hq
      exact ⟨hdata, Nat.le_of_add_right_le hstart, hstop, hslice⟩
  · have hsplit : c'.position - c.position = count + (c'.position - (c.position + count)) := by
      omega
    rw [List.flatMap_cons, h.answers, Cursor.between, Cursor.between, hsplit, List.take_add,
      Cursor.rest_advance]
    simp [Request.answer, Decoder.bytes, hfits, Cursor.advance]

end Passage

/-- No script leads out of the bytes. -/
theorem Script.passage {α : Type} (s : Script α) (c : Cursor) (hc : c.position ≤ c.data.length) :
    Passage c (s.requests c) (s.run.stop c) := by
  induction s generalizing c with
  | done a => exact .nil hc
  | refuse e he => exact .nil hc
  | ask count next ih =>
    by_cases hfits : count ≤ c.remaining
    · have hbytes : Decoder.bytes count c = .ok (c.rest.take count) (c.advance count) :=
        if_pos hfits
      have hstop : (ask count next).run.stop c =
          (next (c.rest.take count)).run.stop (c.advance count) := by
        change Decoder.stop (EStateM.bind _ _) c = _
        simp only [Decoder.stop, EStateM.bind, hbytes]
      have hadvanced : (c.advance count).position ≤ (c.advance count).data.length := by
        simp only [Cursor.remaining] at hfits
        simp only [Cursor.advance]
        omega
      simp only [requests, hbytes, hstop]
      exact .cons hfits (ih _ _ hadvanced)
    · have hbytes : Decoder.bytes count c = .error (.truncated count c.remaining) c :=
        if_neg hfits
      have hstop : (ask count next).run.stop c = c := by
        change Decoder.stop (EStateM.bind _ _) c = _
        simp only [Decoder.stop, EStateM.bind, hbytes]
      simp only [requests, hbytes, hstop]
      exact .of_short hc (Nat.not_le.1 hfits)

/-! ### Decoders that are run by scripts -/

namespace Decoder

variable {α β : Type}

/-- The decoder is run by a script. -/
def IsScript (d : Decoder α) : Prop := ∃ s : Script α, s.run = d

theorem IsScript.pure (a : α) : IsScript (pure a) := ⟨.done a, rfl⟩

theorem IsScript.refuse {e : AppendixError} (he : e.errorClass = .malformed) :
    IsScript (refuse e : Decoder α) :=
  ⟨.refuse e he, rfl⟩

theorem IsScript.bind {d : Decoder α} {k : α → Decoder β} (hd : d.IsScript)
    (hk : ∀ a, (k a).IsScript) : (d >>= k).IsScript := by
  obtain ⟨s, rfl⟩ := hd
  choose t ht using hk
  refine ⟨s.bind t, ?_⟩
  rw [Script.run_bind]
  simp only [ht]

theorem IsScript.map {d : Decoder α} (hd : d.IsScript) (f : α → β) : (f <$> d).IsScript := by
  rw [map_eq_pure_bind]
  exact hd.bind fun a => .pure (f a)

theorem IsScript.repeated {d : Decoder α} (hd : d.IsScript) (count : Nat) :
    (Decoder.repeated d count).IsScript := by
  induction count with
  | zero => exact .pure []
  | succ count ih => exact hd.bind fun _ => ih.bind fun _ => .pure _

theorem isScript_bytes (count : Nat) : (bytes count).IsScript := by
  refine ⟨.ask count .done, ?_⟩
  simp [Script.run]

theorem isScript_byte : byte.IsScript := (isScript_bytes 1).bind fun _ => .pure _

theorem isScript_word32 : word32.IsScript := (isScript_bytes 4).bind fun _ => .pure _

theorem isScript_word64 : word64.IsScript := (isScript_bytes 8).bind fun _ => .pure _

theorem isScript_length (field : String) (max : Nat) : (length field max).IsScript := by
  refine isScript_word32.bind fun word => ?_
  dsimp only
  split
  · exact .pure _
  · exact .refuse rfl

end Decoder

open Decoder

theorem Version.isScript_read (transactionVersion : UInt8) :
    (Version.read transactionVersion).IsScript := by
  unfold Version.read
  split
  · exact .pure 0
  · refine isScript_byte.bind fun version => ?_
    split
    · exact .refuse rfl
    · exact .pure version

section Forms

variable (transactionVersion : UInt8) (limits : Limits)

theorem Message.isScript_decode : (Message.decode transactionVersion limits).IsScript :=
  (Version.isScript_read transactionVersion).bind fun _ =>
    (isScript_length _ _).bind fun field =>
      (isScript_bytes field.length).bind fun _ => .pure _

theorem SealedMessage.isScript_decode : (SealedMessage.decode transactionVersion limits).IsScript :=
  (Version.isScript_read transactionVersion).bind fun _ =>
    (isScript_length _ _).bind fun field =>
      (isScript_bytes field.length).bind fun _ => (isScript_bytes _).bind fun _ => .pure _

theorem Announcement.isScript_decode : (Announcement.decode transactionVersion).IsScript :=
  (Version.isScript_read transactionVersion).bind fun _ =>
    (isScript_bytes PublicKey.size).bind fun _ => .pure _

theorem Weighting.isScript_decode : Weighting.decode.IsScript := by
  refine isScript_byte.bind fun code => ?_
  split
  · exact .pure _
  · exact .pure _
  · exact isScript_word64.bind fun _ => .pure _
  · exact .refuse rfl

theorem Phasing.isScript_decodeVoters (maxVoters : Nat) :
    (Phasing.decodeVoters maxVoters).IsScript := by
  refine isScript_byte.bind fun count => ?_
  dsimp only
  split
  · exact isScript_word64.repeated _
  · exact .refuse rfl

theorem Phasing.isScript_decode : (Phasing.decode transactionVersion limits).IsScript :=
  (Version.isScript_read transactionVersion).bind fun _ =>
    isScript_word32.bind fun _ =>
      isScript_word64.bind fun _ =>
        isScript_word64.bind fun _ =>
          Weighting.isScript_decode.bind fun _ =>
            (Phasing.isScript_decodeVoters _).bind fun _ => .pure _

theorem Appendix.isScript_decode (kind : Kind) :
    (Appendix.decode kind transactionVersion limits).IsScript := by
  cases kind with
  | message => exact (Message.isScript_decode _ _).map _
  | encryptedMessage => exact (SealedMessage.isScript_decode _ _).map _
  | announcement => exact (Announcement.isScript_decode _).map _
  | encryptToSelf => exact (SealedMessage.isScript_decode _ _).map _
  | phasing => exact (Phasing.isScript_decode _ _).map _

theorem AppendixSet.isScript_decodeKinds (kinds : List Kind) :
    (decodeKinds transactionVersion limits kinds).IsScript := by
  induction kinds with
  | nil => exact .pure []
  | cons kind kinds ih =>
    exact (Appendix.isScript_decode _ _ kind).bind fun _ => ih.bind fun _ => .pure _

theorem AppendixSet.isScript_decodeFrom (flags : UInt32) :
    (decodeFrom flags transactionVersion limits).IsScript := by
  unfold decodeFrom
  split
  · exact (isScript_decodeKinds _ _ _).bind fun _ => .pure _
  · exact .refuse rfl

end Forms

/-!
## What is wrong with bytes that are refused

Bytes are read without a look at the ledger or at the transaction, its version apart, so a decoder
can find fault with the bytes alone: whatever it refuses is malformed. This holds of any script,
because there are too few bytes for a request or the script refuses by itself, and so of the decoder
of a whole region.
-/

variable {α : Type}

/-- Whatever the decoder refuses, from whatever place in whatever bytes, is malformed. -/
def Decoder.RefusesMalformed (d : Decoder α) : Prop :=
  ∀ c e c', d c = .error e c' → e.errorClass = .malformed

theorem Script.refusesMalformed_run (s : Script α) : s.run.RefusesMalformed := by
  intro c e c' h
  induction s generalizing c with
  | done a => cases h
  | refuse e' he =>
    cases h
    exact he
  | ask count next ih =>
    obtain hshort | ⟨bs, c₁, -, hnext⟩ := Decoder.bind_eq_error_iff.1 h
    · obtain ⟨-, rfl, -⟩ := Decoder.bytes_eq_error_iff.1 hshort
      rfl
    · exact ih bs c₁ hnext

theorem Decoder.IsScript.refusesMalformed {d : Decoder α} (hd : d.IsScript) :
    d.RefusesMalformed := by
  obtain ⟨s, rfl⟩ := hd
  exact s.refusesMalformed_run

namespace AppendixSet

variable (transactionVersion : UInt8) (limits : Limits)

theorem refusesMalformed_decodeFrom (flags : UInt32) :
    (decodeFrom flags transactionVersion limits).RefusesMalformed :=
  (isScript_decodeFrom transactionVersion limits flags).refusesMalformed

theorem errorClass_of_decode {flags : UInt32} {data : List UInt8} {e : AppendixError}
    (h : decode flags data transactionVersion limits = .error e) : e.errorClass = .malformed := by
  unfold decode at h
  split at h
  · split at h
    · cases h
    · cases h
      rfl
  · next hregion =>
    cases h
    exact refusesMalformed_decodeFrom _ _ _ _ _ _ hregion

end AppendixSet

end LedgerAppendix
