import LedgerAppendix.Bytes

/-!
# Transactions

The header of a transaction as far as its appendices look at it, and the identifiers in it.
-/

namespace LedgerAppendix

/-!
## SHA-256

The digest that account identifiers are taken from. A message is padded to whole blocks of 64 bytes,
and every block stirs eight 32-bit words in 64 rounds.

The schedule of a block is a sliding window over sixteen words: each round uses the first of them
and appends one made of four others.
-/

namespace Sha256

structure State where
  a : UInt32
  b : UInt32
  c : UInt32
  d : UInt32
  e : UInt32
  f : UInt32
  g : UInt32
  h : UInt32
deriving DecidableEq, Repr

/-- Fractional parts of the square roots of the first eight primes. -/
def initial : State :=
  ⟨0x6a09e667, 0xbb67ae85, 0x3c6ef372, 0xa54ff53a, 0x510e527f, 0x9b05688c, 0x1f83d9ab, 0x5be0cd19⟩

/-- Fractional parts of the cube roots of the first 64 primes, one for each round. -/
def roundConstants : List UInt32 :=
  [0x428a2f98, 0x71374491, 0xb5c0fbcf, 0xe9b5dba5, 0x3956c25b, 0x59f111f1, 0x923f82a4, 0xab1c5ed5,
   0xd807aa98, 0x12835b01, 0x243185be, 0x550c7dc3, 0x72be5d74, 0x80deb1fe, 0x9bdc06a7, 0xc19bf174,
   0xe49b69c1, 0xefbe4786, 0x0fc19dc6, 0x240ca1cc, 0x2de92c6f, 0x4a7484aa, 0x5cb0a9dc, 0x76f988da,
   0x983e5152, 0xa831c66d, 0xb00327c8, 0xbf597fc7, 0xc6e00bf3, 0xd5a79147, 0x06ca6351, 0x14292967,
   0x27b70a85, 0x2e1b2138, 0x4d2c6dfc, 0x53380d13, 0x650a7354, 0x766a0abb, 0x81c2c92e, 0x92722c85,
   0xa2bfe8a1, 0xa81a664b, 0xc24b8b70, 0xc76c51a3, 0xd192e819, 0xd6990624, 0xf40e3585, 0x106aa070,
   0x19a4c116, 0x1e376c08, 0x2748774c, 0x34b0bcb5, 0x391c0cb3, 0x4ed8aa4a, 0x5b9cca4f, 0x682e6ff3,
   0x748f82ee, 0x78a5636f, 0x84c87814, 0x8cc70208, 0x90befffa, 0xa4506ceb, 0xbef9a3f7, 0xc67178f2]

def rotateRight (x n : UInt32) : UInt32 := (x >>> n) ||| (x <<< (32 - n))

/-- The word that the window of the schedule grows by. -/
def nextWord : List UInt32 → UInt32
  | [w0, w1, _, _, _, _, _, _, _, w9, _, _, _, _, w14, _] =>
    let s0 := rotateRight w1 7 ^^^ rotateRight w1 18 ^^^ (w1 >>> 3)
    let s1 := rotateRight w14 17 ^^^ rotateRight w14 19 ^^^ (w14 >>> 10)
    w0 + s0 + w9 + s1
  | _ => 0

/-- The words that some rounds use, from a window of sixteen. -/
def schedule : (rounds : Nat) → (window : List UInt32) → List UInt32
  | 0, _ => []
  | rounds + 1, window =>
    window.headD 0 :: schedule rounds (window.tail ++ [nextWord window])

def State.round (s : State) (constant word : UInt32) : State :=
  let s1 := rotateRight s.e 6 ^^^ rotateRight s.e 11 ^^^ rotateRight s.e 25
  let choice := (s.e &&& s.f) ^^^ ((~~~s.e) &&& s.g)
  let t1 := s.h + s1 + choice + constant + word
  let s0 := rotateRight s.a 2 ^^^ rotateRight s.a 13 ^^^ rotateRight s.a 22
  let majority := (s.a &&& s.b) ^^^ (s.a &&& s.c) ^^^ (s.b &&& s.c)
  ⟨t1 + (s0 + majority), s.a, s.b, s.c, s.d + t1, s.e, s.f, s.g⟩

def State.add (s t : State) : State :=
  ⟨s.a + t.a, s.b + t.b, s.c + t.c, s.d + t.d, s.e + t.e, s.f + t.f, s.g + t.g, s.h + t.h⟩

def State.absorb (s : State) (block : List UInt32) : State :=
  s.add ((roundConstants.zip (schedule 64 block)).foldl (fun s kw => s.round kw.1 kw.2) s)

/-- Bytes as 32-bit words, most significant byte first. -/
def words : List UInt8 → List UInt32
  | b0 :: b1 :: b2 :: b3 :: rest =>
    ((b0.toUInt32 <<< 24) ||| (b1.toUInt32 <<< 16) ||| (b2.toUInt32 <<< 8) ||| b3.toUInt32) ::
      words rest
  | _ => []

/-- Take in some blocks of sixteen words, one after the other. -/
def State.absorbBlocks (s : State) : (blocks : Nat) → List UInt32 → State
  | 0, _ => s
  | blocks + 1, ws => (s.absorb (ws.take 16)).absorbBlocks blocks (ws.drop 16)

/-- The eight bytes of a number, most significant first. -/
def countBytes (n : Nat) : List UInt8 :=
  [56, 48, 40, 32, 24, 16, 8, 0].map fun (shift : Nat) => UInt8.ofNat (n >>> shift)

/-- A message with a one bit, zeros and its length in bits, filling whole blocks. -/
def pad (message : List UInt8) : List UInt8 :=
  let n := message.length
  message ++ 0x80 :: List.replicate ((119 - n % 64) % 64) 0 ++ countBytes (8 * n)

def wordBytes (w : UInt32) : List UInt8 :=
  [(w >>> 24).toUInt8, (w >>> 16).toUInt8, (w >>> 8).toUInt8, w.toUInt8]

def State.bytes (s : State) : List UInt8 :=
  [s.a, s.b, s.c, s.d, s.e, s.f, s.g, s.h].flatMap wordBytes

def digest (message : List UInt8) : List UInt8 :=
  let padded := pad message
  (initial.absorbBlocks (padded.length / 64) (words padded)).bytes

end Sha256

/-!
## Identifiers and keys

Accounts, transactions and assets are named by 64-bit identifiers. The identifier of an account
follows from its public key, so a key can be checked against the account that it claims.
-/

abbrev AccountId := UInt64

/-- Name of a transaction, and of the poll that it opens. -/
abbrev TransactionId := UInt64

abbrev AssetId := UInt64

structure PublicKey where
  bytes : List UInt8
  length_eq : bytes.length = 32
deriving DecidableEq, Repr

namespace PublicKey

def size : Nat := 32

/-- The key that some bytes are, if their number is right. -/
def ofBytes? (bs : List UInt8) : Option PublicKey :=
  if h : bs.length = 32 then some ⟨bs, h⟩ else none

end PublicKey

/-- The account that a key belongs to (`account_id`): the first eight bytes of the key's digest as a
number, least significant byte first. -/
def accountId (key : List UInt8) : AccountId :=
  UInt64.ofNat (LittleEndian.value ((Sha256.digest key).take 8))

/-!
## Transactions

What an appendix has to know of the transaction that carries it.
-/

inductive TransactionType where
  | ordinaryPayment
  | arbitraryMessage
  | aliasAssignment
  | accountInfo
  | assetTransfer
  | voteCasting
deriving DecidableEq, Repr

/-- Whether transactions of a type name an account to receive them (`has_recipient` of
`TransactionType`). -/
def TransactionType.hasRecipient : TransactionType → Bool
  | .ordinaryPayment | .arbitraryMessage | .assetTransfer => true
  | .aliasAssignment | .accountInfo | .voteCasting => false

/-- What the appendices see of their transaction (`TransactionHeader`). -/
structure Transaction where
  id : TransactionId
  /-- Zero for a legacy transaction. -/
  version : UInt8
  type : TransactionType
  sender : AccountId
  recipient : Option AccountId
  amount : UInt64
  /-- Height of the block that holds the transaction. -/
  height : UInt32
deriving DecidableEq, Repr

namespace Transaction

/-- Whether the transaction is one of those that name a recipient. This is a matter of its type,
not of the recipient that stands in it. -/
def hasRecipient (tx : Transaction) : Bool := tx.type.hasRecipient

/-- Whether the transaction is older than versioned appendices. -/
def isLegacy (tx : Transaction) : Bool := tx.version = 0

end Transaction

end LedgerAppendix
