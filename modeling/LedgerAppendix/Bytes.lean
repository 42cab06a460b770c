/-!
# Bytes

How numbers and lengths stand in bytes, and how an encoder puts bytes one after the other.
-/

namespace LedgerAppendix

/-!
## Little-endian words

Every fixed-width number on the wire is written least significant byte first. A word is handled
here as a natural number with a width in bytes, so that one pair of functions serves the one-, four-
and eight-byte fields alike.
-/

namespace LittleEndian

/-- The `width` lowest bytes of a number, least significant first. -/
def bytes : (width : Nat) → (n : Nat) → List UInt8
  | 0, _ => []
  | width + 1, n => UInt8.ofNat n :: bytes width (n / 256)

/-- The number that some bytes spell, least significant first. -/
def value : List UInt8 → Nat
  | [] => 0
  | b :: rest => b.toNat + 256 * value rest

end LittleEndian

/-!
## The packed length field

A message-like payload is announced by one 32-bit word. Its low 31 bits are the payload's length in
bytes, its high bit says whether the payload is text.

Packing keeps only the length modulo 2³¹, so a field is recovered exactly when its length fits
(`unpack_pack`). In the other direction nothing is lost: a word is packed again to itself
(`pack_unpack`), which makes the word the only spelling of its field.
-/

/-- What a length word announces. -/
structure LengthField where
  length : Nat
  isText : Bool
deriving DecidableEq, Repr

namespace LengthField

/-- The word of a field (the codec's `pack_length`): the length modulo 2³¹, with the high bit set
for text. -/
def pack (f : LengthField) : UInt32 :=
  UInt32.ofNat (f.length % 0x80000000 + if f.isText then 0x80000000 else 0)

/-- The field of a word (the codec's `unpack_length`). -/
def unpack (word : UInt32) : LengthField where
  length := word.toNat % 0x80000000
  isText := decide (0x80000000 ≤ word.toNat)

theorem toNat_pack (f : LengthField) :
    f.pack.toNat = f.length % 0x80000000 + if f.isText then 0x80000000 else 0 := by
  have h : f.length % 0x80000000 < 0x80000000 := Nat.mod_lt _ (by decide)
  rw [pack, UInt32.toNat_ofNat']
  split <;> omega

/-- A field whose length fits into 31 bits is read back as it was written. -/
theorem unpack_pack (f : LengthField) (h : f.length < 0x80000000) : unpack f.pack = f := by
  obtain ⟨length, isText⟩ := f
  have h : length < 0x80000000 := h
  cases isText with
  | false =>
    have word : (pack ⟨length, false⟩).toNat = length := by
      rw [toNat_pack]
      exact Nat.mod_eq_of_lt h
    have text : decide (0x80000000 ≤ length) = false := decide_eq_false (by omega)
    rw [unpack, word, text, Nat.mod_eq_of_lt h]
  | true =>
    have word : (pack ⟨length, true⟩).toNat = length + 0x80000000 := by
      rw [toNat_pack]
      exact congrArg (· + 0x80000000) (Nat.mod_eq_of_lt h)
    have text : decide (0x80000000 ≤ length + 0x80000000) = true := decide_eq_true (by omega)
    have rest : (length + 0x80000000) % 0x80000000 = length := by omega
    rw [unpack, word, text, rest]

/-- Every word is the packed form of the field that it announces. -/
theorem pack_unpack (word : UInt32) : (unpack word).pack = word := by
  apply UInt32.toNat_inj.1
  have hw : word.toNat < 0x100000000 := word.toNat_lt
  rw [toNat_pack]
  by_cases h : 0x80000000 ≤ word.toNat
  · have text : (unpack word).isText = true := decide_eq_true h
    have length : (unpack word).length = word.toNat % 0x80000000 := rfl
    rw [text, length, if_pos rfl]
    omega
  · have text : (unpack word).isText = false := decide_eq_false h
    have length : (unpack word).length = word.toNat % 0x80000000 := rfl
    rw [text, length, if_neg Bool.false_ne_true]
    omega

end LengthField

/-!
## Write buffers

An encoder appends to a buffer and never looks at what is already there. Each operation below is
given by the bytes that it appends, so what a sequence of them writes is the concatenation of the
parts, whatever the buffer held before.
-/

/-- What an encoder has written so far (the codec's `ByteWriter`). -/
structure Buffer where
  bytes : List UInt8
deriving DecidableEq, Repr

namespace Buffer

def empty : Buffer := ⟨[]⟩

def size (w : Buffer) : Nat := w.bytes.length

def isEmpty (w : Buffer) : Bool := w.bytes.isEmpty

/-- Append some bytes (`put_bytes`). -/
def put (w : Buffer) (bs : List UInt8) : Buffer := ⟨w.bytes ++ bs⟩

/-- Append one byte (`put_u8`). -/
def putByte (w : Buffer) (b : UInt8) : Buffer := w.put [b]

/-- Append a 32-bit word, least significant byte first (`put_u32`). -/
def putWord32 (w : Buffer) (n : UInt32) : Buffer := w.put (LittleEndian.bytes 4 n.toNat)

/-- Append a 64-bit word, least significant byte first (`put_u64`). -/
def putWord64 (w : Buffer) (n : UInt64) : Buffer := w.put (LittleEndian.bytes 8 n.toNat)

@[simp] theorem bytes_put (w : Buffer) (bs : List UInt8) : (w.put bs).bytes = w.bytes ++ bs := rfl

@[simp] theorem bytes_putByte (w : Buffer) (b : UInt8) : (w.putByte b).bytes = w.bytes ++ [b] := rfl

@[simp] theorem bytes_putWord32 (w : Buffer) (n : UInt32) :
    (w.putWord32 n).bytes = w.bytes ++ LittleEndian.bytes 4 n.toNat := rfl

@[simp] theorem bytes_putWord64 (w : Buffer) (n : UInt64) :
    (w.putWord64 n).bytes = w.bytes ++ LittleEndian.bytes 8 n.toNat := rfl

end Buffer

end LedgerAppendix
