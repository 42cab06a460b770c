/-!
# Text and bytes

Bytes are shown as text in two ways. What should be text already is read as UTF-8, and all else is
written with hexadecimal digits.
-/

namespace LedgerAppendix

/-!
## UTF-8 text

A string is written as the UTF-8 bytes of its characters. Bytes that came from elsewhere need not be
UTF-8; they are read by a machine that takes one byte at a time and knows which bytes may come next.

The machine cuts any bytes into parts. A part is a character, or a piece that no character can
start with, taken as long as a character could still come of it. Bytes are text when every part is a
character (`decode?`), and they are shown by putting the replacement character in place of every
other part (`lossy`).
-/

namespace Utf8

def encode (s : String) : List UInt8 := s.toList.flatMap String.utf8EncodeChar

/-- Where the machine stands between two bytes. -/
inductive State where
  /-- Between two parts. -/
  | start
  /-- Inside a character: the bits of its code point so far, the least and the greatest byte that
  may come next, and how many bytes come after that one. -/
  | inside (code least most after : Nat)
deriving DecidableEq, Repr

/-- The state after the first byte of a character, with the part that the byte ends, if it ends one.
The bounds on the second byte keep out longer spellings of smaller code points, surrogates, and
code points beyond the last. -/
def first (b : UInt8) : List (Option Char) × State :=
  let n := b.toNat
  if n < 0x80 then ([some (Char.ofNat n)], .start)
  else if n < 0xC2 then ([none], .start)
  else if n < 0xE0 then ([], .inside (n % 32) 0x80 0xBF 0)
  else if n = 0xE0 then ([], .inside 0 0xA0 0xBF 1)
  else if n = 0xED then ([], .inside 0x0D 0x80 0x9F 1)
  else if n < 0xF0 then ([], .inside (n % 16) 0x80 0xBF 1)
  else if n = 0xF0 then ([], .inside 0 0x90 0xBF 2)
  else if n < 0xF4 then ([], .inside (n % 8) 0x80 0xBF 2)
  else if n = 0xF4 then ([], .inside 4 0x80 0x8F 2)
  else ([none], .start)

/-- Take one byte: the parts that it ends and the state after it. A byte that cannot continue a
character ends the piece before it and is looked at afresh. -/
def State.step : State → UInt8 → List (Option Char) × State
  | .start, b => first b
  | .inside code least most after, b =>
    if least ≤ b.toNat ∧ b.toNat ≤ most then
      let code := code * 64 + b.toNat % 64
      match after with
      | 0 => ([some (Char.ofNat code)], .start)
      | after + 1 => ([], .inside code 0x80 0xBF after)
    else
      let (ended, state) := first b
      (none :: ended, state)

/-- The parts that some bytes end from a state on. Bytes that stop inside a character leave a
piece. -/
def State.parts : State → List UInt8 → List (Option Char)
  | .start, [] => []
  | .inside .., [] => [none]
  | state, b :: rest => (state.step b).1 ++ (state.step b).2.parts rest

/-- The characters and, as `none`, the other pieces that some bytes fall into. -/
def parts (bs : List UInt8) : List (Option Char) := State.start.parts bs

/-- The text that some bytes are, if they are UTF-8. -/
def decode? (bs : List UInt8) : Option String := ((parts bs).mapM id).map String.ofList

/-- The text that some bytes are shown as. -/
def lossy (bs : List UInt8) : String :=
  String.ofList ((parts bs).map fun part => part.getD '\uFFFD')

end Utf8

/-!
## Quoted characters

A single character inside a message stands between apostrophes. The characters that a reader could
not see, and those with a meaning inside the quotes, are escaped. Only the first 256 characters can
occur, one for each byte.
-/

namespace CharLiteral

/-- Whether a character with the number of a byte is shown as it is. The controls are not, nor is
the soft hyphen, and the blank that does not break is not either. -/
def isShown (n : Nat) : Bool := (0x20 ≤ n && n < 0x7F) || (0xA1 ≤ n && n != 0xAD)

/-- A character with the number of a byte, inside the quotes. -/
def escape (b : UInt8) : String :=
  if b = 0 then "\\0"
  else if b = 9 then "\\t"
  else if b = 10 then "\\n"
  else if b = 13 then "\\r"
  else if b = 39 then "\\'"
  else if b = 92 then "\\\\"
  else if isShown b.toNat then (Char.ofNat b.toNat).toString
  else "\\u\x7b" ++ String.ofList (Nat.toDigits 16 b.toNat) ++ "\x7d"

/-- A character with the number of a byte, between apostrophes. -/
def quote (b : UInt8) : String := "'" ++ escape b ++ "'"

end CharLiteral

/-!
## Hexadecimal

Bytes are shown with two digits each, the high half first and in lower case. Reading takes either
case. It works on the bytes of the text, so a character outside ASCII is refused at its first byte,
and an odd number of bytes is refused before any digit is looked at.
-/

namespace Hex

inductive Fault where
  | oddLength
  /-- A byte that is no digit, and where it stands. -/
  | invalidDigit (byte : UInt8) (position : Nat)
deriving DecidableEq, Repr

def Fault.message : Fault → String
  | .oddLength => "Odd number of digits"
  | .invalidDigit byte position =>
    "Invalid character " ++ CharLiteral.quote byte ++ " at position " ++ toString position

/-- The digits of some bytes, two for each. -/
def digits : List UInt8 → List Char
  | [] => []
  | b :: rest => Nat.digitChar (b.toNat / 16) :: Nat.digitChar (b.toNat % 16) :: digits rest

def encode (bs : List UInt8) : String := String.ofList (digits bs)

def digitValue? (b : UInt8) : Option Nat :=
  let n := b.toNat
  if 48 ≤ n ∧ n ≤ 57 then some (n - 48)
  else if 97 ≤ n ∧ n ≤ 102 then some (n - 87)
  else if 65 ≤ n ∧ n ≤ 70 then some (n - 55)
  else none

/-- The number that the digit at a position stands for. -/
def digit (b : UInt8) (position : Nat) : Except Fault Nat :=
  match digitValue? b with
  | some n => .ok n
  | none => .error (.invalidDigit b position)

/-- Read digits in pairs, from a position on. -/
def readPairs (position : Nat) : List UInt8 → Except Fault (List UInt8)
  | high :: low :: rest => do
    let h ← digit high position
    let l ← digit low (position + 1)
    let tail ← readPairs (position + 2) rest
    return UInt8.ofNat (h * 16 + l) :: tail
  | _ => .ok []

def decode (text : String) : Except Fault (List UInt8) :=
  let bs := Utf8.encode text
  if bs.length % 2 = 1 then .error .oddLength else readPairs 0 bs

end Hex

end LedgerAppendix
