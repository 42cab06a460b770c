import LedgerAppendix.Appendix.Basic
import LedgerAppendix.Appendix.Error
import LedgerAppendix.Bytes
import LedgerAppendix.Config

/-!
# The wire

The binary form of appendices: how many bytes there are, which ones they are, and how they are read.
-/

namespace LedgerAppendix

/-!
## Reading from bytes

A decoder reads fields off the front of what is left of some bytes. It either yields a value or a
refusal, and in both cases it leaves the cursor where reading stopped, so a caller can see how far a
refused appendix was read. A field that does not fit into the remaining bytes is refused without
reading any of them.
-/

/-- Some bytes, and how many of them have been read (`ByteReader`). -/
structure Cursor where
  data : List UInt8
  position : Nat
deriving DecidableEq, Repr

namespace Cursor

def ofBytes (data : List UInt8) : Cursor := ⟨data, 0⟩

def remaining (c : Cursor) : Nat := c.data.length - c.position

def rest (c : Cursor) : List UInt8 := c.data.drop c.position

/-- The cursor some bytes further on. -/
def advance (c : Cursor) (count : Nat) : Cursor := { c with position := c.position + count }

end Cursor

/-- A reader of fields. A refusal leaves the cursor where it came up. -/
abbrev Decoder := EStateM AppendixError Cursor

namespace Decoder

def refuse {α : Type} (e : AppendixError) : Decoder α := fun c => .error e c

/-- The next `count` bytes (`get_bytes`). -/
def bytes (count : Nat) : Decoder (List UInt8) := fun c =>
  if count ≤ c.remaining then .ok (c.rest.take count) (c.advance count)
  else .error (.truncated count c.remaining) c

/-- The next byte (`get_u8`). -/
def byte : Decoder UInt8 := do
  return UInt8.ofNat (LittleEndian.value (← bytes 1))

/-- The next 32-bit word (`get_u32`). -/
def word32 : Decoder UInt32 := do
  return UInt32.ofNat (LittleEndian.value (← bytes 4))

/-- The next 64-bit word (`get_u64`). -/
def word64 : Decoder UInt64 := do
  return UInt64.ofNat (LittleEndian.value (← bytes 8))

/-- The next length word, if the length that it announces is at most `max` (`get_length`). -/
def length (field : String) (max : Nat) : Decoder LengthField := do
  let f := LengthField.unpack (← word32)
  if f.length ≤ max then return f else refuse (.lengthExceeded field f.length max)

/-- The same field a number of times. -/
def repeated {α : Type} (item : Decoder α) : (count : Nat) → Decoder (List α)
  | 0 => return []
  | count + 1 => do
    let first ← item
    let others ← repeated item count
    return first :: others

end Decoder

/-!
## Version bytes

Whether there is a version byte to read follows from the version of the transaction alone, so a byte
of zero in its place is refused: no appendix is written with one.
-/

namespace Version

/-- Write a version, which takes no byte if it is 0 (`write_version`). -/
def write (version : UInt8) (w : Buffer) : Buffer := if 0 < version then w.putByte version else w

/-- Read the version in front of an appendix of a transaction (`read_version`). -/
def read (transactionVersion : UInt8) : Decoder UInt8 :=
  if transactionVersion = 0 then return 0
  else do
    let version ← Decoder.byte
    if version = 0 then Decoder.refuse (.invalidVersion version transactionVersion)
    else return version

end Version

/-!
## Appendices on the wire

Every appendix starts with its version byte, if it has one. What follows depends on the kind:

* a message: its length word and its payload;
* a sealed message: its length word, the ciphertext and the nonce, of which the length word counts
  the ciphertext only, because the length of the nonce follows from it;
* an announcement: the key;
* a phasing: the last height, the quorum, the threshold, the number of the voting model, the asset
  where there is one, and the voters after their count, which takes a single byte.

`write` appends these bytes to a buffer, `size` counts them without writing any, and `decode` reads
them. Reading keeps to the limits in force as soon as a length is known.
-/

/-! ### Messages -/

namespace Message

def size (m : Message) : Nat := Version.size m.version + 4 + m.payload.length

/-- Write a message (`encode` of `Message`). -/
def write (m : Message) (w : Buffer) : Buffer :=
  let w := Version.write m.version w
  let w := w.putWord32 (LengthField.pack ⟨m.payload.length, m.isText⟩)
  w.put m.payload

/-- Read a message off a transaction of a version (`decode` of `Message`). -/
def decode (transactionVersion : UInt8) (limits : Limits) : Decoder Message := do
  let version ← Version.read transactionVersion
  let field ← Decoder.length "message" limits.maxMessageLength.toNat
  let payload ← Decoder.bytes field.length
  return { version, payload, isText := field.isText }

end Message

/-! ### Sealed messages -/

namespace SealedMessage

def size (m : SealedMessage) : Nat := Version.size m.version + 4 + m.sealedSize

/-- Write a sealed message (`encode` of `EncryptedBody`). -/
def write (m : SealedMessage) (w : Buffer) : Buffer :=
  let w := Version.write m.version w
  let w := w.putWord32 (LengthField.pack ⟨m.ciphertext.length, m.isText⟩)
  let w := w.put m.ciphertext
  w.put m.nonce

/-- Read a sealed message off a transaction of a version (`decode` of `EncryptedBody`). -/
def decode (transactionVersion : UInt8) (limits : Limits) : Decoder SealedMessage := do
  let version ← Version.read transactionVersion
  let field ← Decoder.length "encrypted message" limits.maxEncryptedLength.toNat
  let ciphertext ← Decoder.bytes field.length
  let nonce ← Decoder.bytes (if field.length = 0 then 0 else nonceLength)
  return { version, ciphertext, nonce, isText := field.isText }

end SealedMessage

/-! ### Announcements -/

namespace Announcement

def size (a : Announcement) : Nat := Version.size a.version + a.key.length

/-- Write an announcement (`encode` of `PublicKeyAnnouncement`). -/
def write (a : Announcement) (w : Buffer) : Buffer := (Version.write a.version w).put a.key

/-- Read an announcement off a transaction of a version (`decode` of `PublicKeyAnnouncement`). -/
def decode (transactionVersion : UInt8) : Decoder Announcement := do
  let version ← Version.read transactionVersion
  let key ← Decoder.bytes PublicKey.size
  return { version, key }

end Announcement

/-! ### Phasings -/

namespace Weighting

def assetSize : Weighting → Nat
  | .asset _ => 8
  | _ => 0

/-- Write the number of the model, and the asset if there is one. -/
def write (weighting : Weighting) (w : Buffer) : Buffer :=
  let w := w.putByte weighting.model.code
  match weighting with
  | .asset id => w.putWord64 id
  | _ => w

/-- Read the number of the model, and the asset if there is one (as `decode` of `TwoPhased` does).
-/
def decode : Decoder Weighting := do
  let code ← Decoder.byte
  match VotingModel.ofCode? code with
  | some .balance => return .balance
  | some .account => return .account
  | some .asset => return .asset (← Decoder.word64)
  | none => Decoder.refuse (.unknownModel code)

end Weighting

namespace Phasing

def size (p : Phasing) : Nat :=
  Version.size p.version + 4 + 8 + 8 + 1 + p.weighting.assetSize + 1 + 8 * p.voters.length

/-- Write a phasing (`encode` of `TwoPhased`). The count of voters keeps only its lowest byte. -/
def write (p : Phasing) (w : Buffer) : Buffer :=
  let w := Version.write p.version w
  let w := w.putWord32 p.maxHeight
  let w := w.putWord64 p.quorum
  let w := w.putWord64 p.threshold
  let w := p.weighting.write w
  let w := w.putByte (UInt8.ofNat p.voters.length)
  p.voters.foldl Buffer.putWord64 w

/-- Read the voters after their count. -/
def decodeVoters (maxVoters : Nat) : Decoder (List AccountId) := do
  let count := (← Decoder.byte).toNat
  if count ≤ maxVoters then Decoder.repeated Decoder.word64 count
  else Decoder.refuse (.tooManyVoters count maxVoters)

/-- Read a phasing off a transaction of a version (`decode` of `TwoPhased`). -/
def decode (transactionVersion : UInt8) (limits : Limits) : Decoder Phasing := do
  let version ← Version.read transactionVersion
  let maxHeight ← Decoder.word32
  let quorum ← Decoder.word64
  let threshold ← Decoder.word64
  let weighting ← Weighting.decode
  let voters ← decodeVoters limits.maxVoters.toNat
  return { version, maxHeight, quorum, threshold, weighting, voters }

end Phasing

/-! ### Any kind -/

namespace Appendix

def size : Appendix → Nat
  | .message m => m.size
  | .encryptedMessage m => m.size
  | .announcement a => a.size
  | .encryptToSelf m => m.size
  | .phasing p => p.size

/-- Write an appendix of any kind (`encode` of `Appendix`). -/
def write : Appendix → Buffer → Buffer
  | .message m => m.write
  | .encryptedMessage m => m.write
  | .announcement a => a.write
  | .encryptToSelf m => m.write
  | .phasing p => p.write

def toBytes (a : Appendix) : List UInt8 := (a.write .empty).bytes

/-- Read an appendix of a kind off a transaction of a version (`decode` of `Appendix`). -/
def decode (kind : Kind) (transactionVersion : UInt8) (limits : Limits) : Decoder Appendix :=
  match kind with
  | .message => .message <$> Message.decode transactionVersion limits
  | .encryptedMessage => .encryptedMessage <$> SealedMessage.decode transactionVersion limits
  | .announcement => .announcement <$> Announcement.decode transactionVersion
  | .encryptToSelf => .encryptToSelf <$> SealedMessage.decode transactionVersion limits
  | .phasing => .phasing <$> Phasing.decode transactionVersion limits

end Appendix

/-!
## The appendix region of a transaction

The appendices of a transaction stand one after the other in wire order, with nothing between them.
A word of flags, kept elsewhere in the transaction, says which ones they are; without it the region
cannot be read.
-/

namespace AppendixSet

/-- Number of bytes that the region takes (`size` of `AppendixSet`). -/
def byteSize (s : AppendixSet) : Nat := (s.toList.map Appendix.size).foldr (· + ·) 0

/-- Write the region (`encode` of `AppendixSet`). -/
def write (s : AppendixSet) (w : Buffer) : Buffer := s.toList.foldl (fun w a => a.write w) w

/-- The bytes of the region (`to_bytes` of `AppendixSet`). -/
def toBytes (s : AppendixSet) : List UInt8 := (s.write .empty).bytes

/-- Read appendices of some kinds, in the order given. -/
def decodeKinds (transactionVersion : UInt8) (limits : Limits) :
    List Kind → Decoder (List Appendix)
  | [] => return []
  | kind :: kinds => do
    let first ← Appendix.decode kind transactionVersion limits
    let others ← decodeKinds transactionVersion limits kinds
    return first :: others

/-- Read the region that a word of flags announces from the front of what is left (`decode_from`).
-/
def decodeFrom (flags : UInt32) (transactionVersion : UInt8) (limits : Limits) :
    Decoder AppendixSet := do
  if Kind.unknownFlags flags = 0 then
    return ofList (← decodeKinds transactionVersion limits (Kind.namedBy flags))
  else Decoder.refuse (.unknownFlags (Kind.unknownFlags flags))

/-- Read some bytes as a region, to the last byte (`decode` of `AppendixSet`). -/
def decode (flags : UInt32) (data : List UInt8) (transactionVersion : UInt8) (limits : Limits) :
    Except AppendixError AppendixSet :=
  match decodeFrom flags transactionVersion limits (.ofBytes data) with
  | .ok s c => if c.remaining = 0 then .ok s else .error (.trailingBytes c.remaining)
  | .error e _ => .error e

end AppendixSet

end LedgerAppendix
