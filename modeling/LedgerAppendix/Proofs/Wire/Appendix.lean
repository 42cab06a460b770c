import LedgerAppendix.Proofs.Wire.Reads
import LedgerAppendix.Wire

/-!
# Which appendices survive the wire

Each form of appendix gets its spelling, the bytes that `write` appends, and a predicate
`WireValid` that says without any decoder which values a reader gets back. `reads_decode` ties the
two to the decoder of the form: it reads exactly the spellings of the valid values.

What is lost on the way is in the predicates. A length word has room for 31 bits, the count of
voters for one byte, a nonce or a key of another length than the usual one cannot be told from
what follows it, and whether there is a version byte is not a matter of the appendix but of its
transaction.
-/

namespace LedgerAppendix

open Decoder

/-! ### Messages -/

namespace Message

def spelling (m : Message) : List UInt8 :=
  Version.spelling m.version ++
    (LittleEndian.bytes 4 (LengthField.pack ⟨m.payload.length, m.isText⟩).toNat ++ m.payload)

theorem bytes_write (m : Message) (w : Buffer) : (m.write w).bytes = w.bytes ++ m.spelling := by
  simp [write, spelling, Version.bytes_write]

theorem length_spelling (m : Message) : m.spelling.length = m.size := by
  simp only [spelling, size, List.length_append, Version.length_spelling,
    LittleEndian.length_bytes]
  omega

/-- The message fits its transaction, the limit and the length word. -/
def WireValid (m : Message) (transactionVersion : UInt8) (limits : Limits) : Prop :=
  (0 < m.version ↔ 0 < transactionVersion) ∧ m.payload.length < 2 ^ 31 ∧
    m.payload.length ≤ limits.maxMessageLength.toNat

instance (m : Message) (transactionVersion : UInt8) (limits : Limits) :
    Decidable (m.WireValid transactionVersion limits) :=
  inferInstanceAs (Decidable (_ ∧ _ ∧ _))

theorem reads_decode (transactionVersion : UInt8) (limits : Limits) :
    Reads (decode transactionVersion limits) spelling fun m =>
      m.WireValid transactionVersion limits := by
  have hbind := Reads.bind version (Version.reads_read transactionVersion)
    (fun v _ => Reads.bind (fun m : Message => ⟨m.payload.length, m.isText⟩)
      (reads_length "message" limits.maxMessageLength.toNat)
      (fun field _ => Reads.bind payload (reads_bytes field.length)
        (fun bs _ => Reads.pure (⟨v, bs, field.isText⟩ : Message))
        fun _ _ _ h => congrArg payload h)
      fun field _ _ h => by rw [h.1, congrArg isText h.2])
    fun _ _ _ h => congrArg version h.2.2
  refine hbind.congr (fun m => ?_) fun m _ => by simp [spelling]
  simp [WireValid]

end Message

/-! ### Sealed messages -/

namespace SealedMessage

def spelling (m : SealedMessage) : List UInt8 :=
  Version.spelling m.version ++
    (LittleEndian.bytes 4 (LengthField.pack ⟨m.ciphertext.length, m.isText⟩).toNat ++
      (m.ciphertext ++ m.nonce))

theorem bytes_write (m : SealedMessage) (w : Buffer) :
    (m.write w).bytes = w.bytes ++ m.spelling := by
  simp [write, spelling, Version.bytes_write]

theorem length_spelling (m : SealedMessage) : m.spelling.length = m.size := by
  simp only [spelling, size, sealedSize, List.length_append, Version.length_spelling,
    LittleEndian.length_bytes]
  omega

/-- The sealed message fits its transaction, the limit and the length word, and its nonce has the
    length that a reader expects after such a ciphertext. -/
def WireValid (m : SealedMessage) (transactionVersion : UInt8) (limits : Limits) : Prop :=
  (0 < m.version ↔ 0 < transactionVersion) ∧
    (m.ciphertext.length < 2 ^ 31 ∧ m.ciphertext.length ≤ limits.maxEncryptedLength.toNat) ∧
    m.nonce.length = if m.ciphertext.length = 0 then 0 else 32

instance (m : SealedMessage) (transactionVersion : UInt8) (limits : Limits) :
    Decidable (m.WireValid transactionVersion limits) :=
  inferInstanceAs (Decidable (_ ∧ (_ ∧ _) ∧ _))

theorem reads_decode (transactionVersion : UInt8) (limits : Limits) :
    Reads (decode transactionVersion limits) spelling fun m =>
      m.WireValid transactionVersion limits := by
  have hbind := Reads.bind version (Version.reads_read transactionVersion)
    (fun v _ => Reads.bind (fun m : SealedMessage => ⟨m.ciphertext.length, m.isText⟩)
      (reads_length "encrypted message" limits.maxEncryptedLength.toNat)
      (fun field _ => Reads.bind ciphertext (reads_bytes field.length)
        (fun ct _ => Reads.bind nonce
          (reads_bytes (if field.length = 0 then 0 else nonceLength))
          (fun bs _ => Reads.pure (⟨v, ct, bs, field.isText⟩ : SealedMessage))
          fun _ _ _ h => congrArg nonce h)
        fun _ _ _ h => congrArg ciphertext h.2)
      fun field _ _ h => by rw [h.1, congrArg isText h.2.2])
    fun _ _ _ h => congrArg version h.2.2.2
  refine hbind.congr (fun m => ?_) fun m _ => by simp [spelling]
  simp [WireValid, nonceLength]

end SealedMessage

/-! ### Announcements -/

namespace Announcement

def spelling (a : Announcement) : List UInt8 := Version.spelling a.version ++ a.key

theorem bytes_write (a : Announcement) (w : Buffer) :
    (a.write w).bytes = w.bytes ++ a.spelling := by
  simp [write, spelling, Version.bytes_write]

theorem length_spelling (a : Announcement) : a.spelling.length = a.size := by
  simp [spelling, size, Version.length_spelling]

/-- The announcement fits its transaction, and its key has the length of one. -/
def WireValid (a : Announcement) (transactionVersion : UInt8) : Prop :=
  (0 < a.version ↔ 0 < transactionVersion) ∧ a.key.length = 32

instance (a : Announcement) (transactionVersion : UInt8) :
    Decidable (a.WireValid transactionVersion) :=
  inferInstanceAs (Decidable (_ ∧ _))

theorem reads_decode (transactionVersion : UInt8) :
    Reads (decode transactionVersion) spelling fun a => a.WireValid transactionVersion := by
  have hbind := Reads.bind version (Version.reads_read transactionVersion)
    (fun v _ => Reads.bind key (reads_bytes PublicKey.size)
      (fun bs _ => Reads.pure (⟨v, bs⟩ : Announcement)) fun _ _ _ h => congrArg key h)
    fun _ _ _ h => congrArg version h.2
  refine hbind.congr (fun a => ?_) fun a _ => by simp [spelling]
  simp [WireValid, PublicKey.size]

end Announcement

/-! ### Phasings -/

namespace Weighting

def assetSpelling : Weighting → List UInt8
  | .asset id => LittleEndian.bytes 8 id.toNat
  | _ => []

def spelling (w : Weighting) : List UInt8 := [w.model.code] ++ w.assetSpelling

theorem bytes_write (weighting : Weighting) (w : Buffer) :
    (weighting.write w).bytes = w.bytes ++ weighting.spelling := by
  cases weighting <;> simp [write, spelling, assetSpelling]

theorem length_spelling (w : Weighting) : w.spelling.length = 1 + w.assetSize := by
  cases w <;> simp [spelling, assetSpelling, assetSize]

theorem reads_decode : Reads decode spelling fun _ => True := by
  unfold decode
  refine (Reads.bind (fun w : Weighting => w.model.code) (t := assetSpelling)
    (w := fun code w => w.model.code = code) reads_byte (fun code _ => ?_)
    fun _ _ _ h => h).congr (by simp) fun _ _ => rfl
  -- a number that stands for a model leaves one form of weighting, any other number none
  cases hmodel : VotingModel.ofCode? code with
  | none =>
    refine (Reads.refuse _ _).congr (fun w => ⟨False.elim, ?_⟩) (fun _ _ => rfl)
    intro hw
    rw [VotingModel.ofCode?_eq_some_iff.2 hw] at hmodel
    cases hmodel
  | some model =>
    obtain rfl := VotingModel.ofCode?_eq_some_iff.1 hmodel
    cases model with
    | balance =>
      refine (Reads.pure Weighting.balance).congr (fun w => ?_) (by rintro w rfl; rfl)
      cases w <;> simp [model, VotingModel.code]
    | account =>
      refine (Reads.pure Weighting.account).congr (fun w => ?_) (by rintro w rfl; rfl)
      cases w <;> simp [model, VotingModel.code]
    | asset =>
      have hbind := Reads.bind assetId reads_word64 (fun id _ => Reads.pure (Weighting.asset id))
        fun _ _ _ h => congrArg assetId h
      refine hbind.congr (fun w => ?_) ?_
      · cases w <;> simp [model, assetId, VotingModel.code]
      · rintro w ⟨-, hw⟩
        rw [hw]
        exact List.append_nil _

end Weighting

namespace Phasing

/-- The bytes of the voters after their count. -/
def votersSpelling (voters : List AccountId) : List UInt8 :=
  UInt8.ofNat voters.length :: voters.flatMap fun voter => LittleEndian.bytes 8 voter.toNat

def spelling (p : Phasing) : List UInt8 :=
  Version.spelling p.version ++ (LittleEndian.bytes 4 p.maxHeight.toNat ++
    (LittleEndian.bytes 8 p.quorum.toNat ++ (LittleEndian.bytes 8 p.threshold.toNat ++
      (p.weighting.spelling ++ votersSpelling p.voters))))

theorem bytes_foldl_putWord64 (voters : List AccountId) (w : Buffer) :
    (voters.foldl Buffer.putWord64 w).bytes =
      w.bytes ++ voters.flatMap fun voter => LittleEndian.bytes 8 voter.toNat := by
  induction voters generalizing w with
  | nil => simp
  | cons voter voters ih => simp [ih]

theorem bytes_write (p : Phasing) (w : Buffer) : (p.write w).bytes = w.bytes ++ p.spelling := by
  simp [write, spelling, votersSpelling, Version.bytes_write, Weighting.bytes_write,
    bytes_foldl_putWord64]

theorem length_votersSpelling (voters : List AccountId) :
    (votersSpelling voters).length = 1 + 8 * voters.length := by
  have hsum : (voters.flatMap fun voter => LittleEndian.bytes 8 voter.toNat).length =
      8 * voters.length := by
    induction voters with
    | nil => rfl
    | cons voter voters ih =>
      rw [List.flatMap_cons, List.length_append, ih, LittleEndian.length_bytes, List.length_cons]
      omega
  rw [votersSpelling, List.length_cons, hsum]
  omega

theorem length_spelling (p : Phasing) : p.spelling.length = p.size := by
  simp only [spelling, size, List.length_append, Version.length_spelling,
    LittleEndian.length_bytes, Weighting.length_spelling, length_votersSpelling]
  omega

/-- The phasing fits its transaction, and its voters the limit and the byte for their count. -/
def WireValid (p : Phasing) (transactionVersion : UInt8) (limits : Limits) : Prop :=
  (0 < p.version ↔ 0 < transactionVersion) ∧ p.voters.length ≤ min limits.maxVoters.toNat 255

instance (p : Phasing) (transactionVersion : UInt8) (limits : Limits) :
    Decidable (p.WireValid transactionVersion limits) :=
  inferInstanceAs (Decidable (_ ∧ _))

theorem reads_decodeVoters (maxVoters : Nat) :
    Reads (decodeVoters maxVoters) votersSpelling fun voters =>
      voters.length ≤ min maxVoters 255 := by
  have hvoters : ∀ count : UInt8, True → Reads
      (if count.toNat ≤ maxVoters then Decoder.repeated Decoder.word64 count.toNat
        else Decoder.refuse (.tooManyVoters count.toNat maxVoters))
      (fun voters => voters.flatMap fun voter => LittleEndian.bytes 8 voter.toNat)
      fun voters => voters.length = count.toNat ∧ count.toNat ≤ maxVoters := by
    intro count _
    split
    · next hmax =>
      exact (reads_word64.repeated count.toNat).congr (by simp [hmax]) fun _ _ => rfl
    · next hmax =>
      exact (Reads.refuse _ _).congr (by simp [hmax]) fun _ _ => rfl
  have hbind := Reads.bind (fun voters : List AccountId => UInt8.ofNat voters.length) reads_byte
    hvoters fun count _ _ h => by rw [h.1, UInt8.ofNat_toNat]
  refine hbind.congr (fun voters => ?_) fun _ _ => rfl
  have hbyte : (UInt8.ofNat voters.length).toNat = voters.length % 256 := UInt8.toNat_ofNat'
  simp only [true_and, hbyte]
  omega

theorem reads_decode (transactionVersion : UInt8) (limits : Limits) :
    Reads (decode transactionVersion limits) spelling fun p =>
      p.WireValid transactionVersion limits := by
  have hbind := Reads.bind version (Version.reads_read transactionVersion)
    (fun v _ => Reads.bind maxHeight reads_word32
      (fun height _ => Reads.bind quorum reads_word64
        (fun q _ => Reads.bind threshold reads_word64
          (fun t _ => Reads.bind weighting Weighting.reads_decode
            (fun w _ => Reads.bind voters (reads_decodeVoters limits.maxVoters.toNat)
              (fun vs _ => Reads.pure (⟨v, height, q, t, w, vs⟩ : Phasing))
              fun _ _ _ h => congrArg voters h)
            fun _ _ _ h => congrArg weighting h.2)
          fun _ _ _ h => congrArg threshold h.2.2)
        fun _ _ _ h => congrArg quorum h.2.2.2)
      fun _ _ _ h => congrArg maxHeight h.2.2.2.2)
    fun _ _ _ h => congrArg version h.2.2.2.2.2
  refine hbind.congr (fun p => ?_) fun p _ => by simp [spelling]
  simp [WireValid]

end Phasing

/-! ### Any kind -/

namespace Appendix

/-- A reader of the appendix's kind gets it back. -/
def WireValid (a : Appendix) (transactionVersion : UInt8) (limits : Limits) : Prop :=
  match a with
  | .message m => m.WireValid transactionVersion limits
  | .encryptedMessage m => m.WireValid transactionVersion limits
  | .announcement a => a.WireValid transactionVersion
  | .encryptToSelf m => m.WireValid transactionVersion limits
  | .phasing p => p.WireValid transactionVersion limits

instance (a : Appendix) (transactionVersion : UInt8) (limits : Limits) :
    Decidable (a.WireValid transactionVersion limits) :=
  match a with
  | .message m => inferInstanceAs (Decidable (m.WireValid transactionVersion limits))
  | .encryptedMessage m => inferInstanceAs (Decidable (m.WireValid transactionVersion limits))
  | .announcement a => inferInstanceAs (Decidable (a.WireValid transactionVersion))
  | .encryptToSelf m => inferInstanceAs (Decidable (m.WireValid transactionVersion limits))
  | .phasing p => inferInstanceAs (Decidable (p.WireValid transactionVersion limits))

def spelling : Appendix → List UInt8
  | .message m => m.spelling
  | .encryptedMessage m => m.spelling
  | .announcement a => a.spelling
  | .encryptToSelf m => m.spelling
  | .phasing p => p.spelling

theorem bytes_write (a : Appendix) (w : Buffer) : (a.write w).bytes = w.bytes ++ a.spelling := by
  cases a with
  | message m => exact m.bytes_write w
  | encryptedMessage m => exact m.bytes_write w
  | announcement a => exact a.bytes_write w
  | encryptToSelf m => exact m.bytes_write w
  | phasing p => exact p.bytes_write w

theorem toBytes_eq (a : Appendix) : a.toBytes = a.spelling := a.bytes_write .empty

theorem length_spelling (a : Appendix) : a.spelling.length = a.size := by
  cases a with
  | message m => exact m.length_spelling
  | encryptedMessage m => exact m.length_spelling
  | announcement a => exact a.length_spelling
  | encryptToSelf m => exact m.length_spelling
  | phasing p => exact p.length_spelling

theorem reads_decode (kind : Kind) (transactionVersion : UInt8) (limits : Limits) :
    Reads (decode kind transactionVersion limits) spelling fun a =>
      a.kind = kind ∧ a.WireValid transactionVersion limits := by
  cases kind with
  | message =>
    refine ((Message.reads_decode transactionVersion limits).map Appendix.message
      fun _ => rfl).congr (fun a => ?_) fun _ _ => rfl
    cases a <;> simp [Appendix.kind, WireValid]
  | encryptedMessage =>
    refine ((SealedMessage.reads_decode transactionVersion limits).map Appendix.encryptedMessage
      fun _ => rfl).congr (fun a => ?_) fun _ _ => rfl
    cases a <;> simp [Appendix.kind, WireValid]
  | announcement =>
    refine ((Announcement.reads_decode transactionVersion).map Appendix.announcement
      fun _ => rfl).congr (fun a => ?_) fun _ _ => rfl
    cases a <;> simp [Appendix.kind, WireValid]
  | encryptToSelf =>
    refine ((SealedMessage.reads_decode transactionVersion limits).map Appendix.encryptToSelf
      fun _ => rfl).congr (fun a => ?_) fun _ _ => rfl
    cases a <;> simp [Appendix.kind, WireValid]
  | phasing =>
    refine ((Phasing.reads_decode transactionVersion limits).map Appendix.phasing
      fun _ => rfl).congr (fun a => ?_) fun _ _ => rfl
    cases a <;> simp [Appendix.kind, WireValid]

end Appendix

end LedgerAppendix
