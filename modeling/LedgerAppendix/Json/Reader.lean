import LedgerAppendix.Json.Text

/-!
# Reading JSON text

A reader takes the value at the front of a text and returns it with the rest. The text decides the
kind of a number: a literal of digits alone is an integer if it fits into 64 bits, with `-0`
excepted, which has no integer that keeps its sign; every other literal is a floating-point number.

Objects come out with ordered names; of two fields with one name the later counts. A text that is
not one JSON value, blanks around it allowed, is refused.
-/

namespace LedgerAppendix.Json.Reader

/-- Blanks that may stand between tokens. -/
def skipBlanks (cs : List Char) : List Char :=
  cs.dropWhile fun c => c = ' ' || c = '\t' || c = '\n' || c = '\r'

/-- What follows a word, if the text starts with it. -/
def afterWord? (word : List Char) (cs : List Char) : Option (List Char) :=
  if word.isPrefixOf cs then some (cs.drop word.length) else none

/-! ### Numbers -/

def digitValue (c : Char) : Nat := c.toNat - '0'.toNat

/-- Add digits to a number of 64 bits while they fit. The result holds the number, how many digits
it took, and the digits left over. -/
def takeDigits (significand : Nat) : List Char → Nat × Nat × List Char
  | [] => (significand, 0, [])
  | c :: rest =>
    let longer := significand * 10 + digitValue c
    if longer < UInt64.size then
      let (s, taken, left) := takeDigits longer rest
      (s, taken + 1, left)
    else (significand, 0, c :: rest)

/-- The parts of a number literal. -/
structure Literal where
  isNegative : Bool
  whole : List Char
  fraction : List Char
  exponent : Int
  /-- Whether the literal has digits alone. -/
  isPlain : Bool

/-- The exponent part of a literal, if there is one. -/
def exponent? : List Char → Option (Option Int × List Char)
  | 'e' :: rest => go rest
  | 'E' :: rest => go rest
  | cs => some (none, cs)
where
  go (cs : List Char) : Option (Option Int × List Char) :=
    let (isNegative, cs) := match cs with
      | '-' :: rest => (true, rest)
      | '+' :: rest => (false, rest)
      | cs => (false, cs)
    let digits := cs.takeWhile Char.isDigit
    if digits.isEmpty then none
    else
      let n : Int := digits.foldl (fun n c => n * 10 + digitValue c) 0
      some (some (if isNegative then -n else n), cs.dropWhile Char.isDigit)

/-- The literal at the front of a text. A whole part of more than one digit starts with no zero,
and a point is followed by a digit. -/
def literal? (cs : List Char) : Option (Literal × List Char) := do
  let (isNegative, cs) := match cs with
    | '-' :: rest => (true, rest)
    | cs => (false, cs)
  let whole := cs.takeWhile Char.isDigit
  let cs := cs.dropWhile Char.isDigit
  guard (!whole.isEmpty && (whole.length = 1 || whole.head? != some '0'))
  let (fraction, cs) := match cs with
    | '.' :: rest => (some (rest.takeWhile Char.isDigit), rest.dropWhile Char.isDigit)
    | cs => (none, cs)
  guard (fraction != some [])
  let (exponent, cs) ← exponent? cs
  return ({ isNegative, whole, fraction := fraction.getD [], exponent := exponent.getD 0,
            isPlain := fraction.isNone && exponent.isNone }, cs)

/-- The number that a literal stands for. Digits of the whole part that do not fit into 64 bits
count as zeros, later digits of the fraction are dropped. `none` is a number beyond the largest
finite one. -/
def Literal.number? (l : Literal) : Option Number :=
  let (whole, _, dropped) := takeDigits 0 l.whole
  if l.isPlain && dropped.isEmpty && !l.isNegative then
    some (.natural (UInt64.ofNat whole))
  else if l.isPlain && dropped.isEmpty && 0 < whole && whole ≤ 0x8000000000000000 then
    some (.negative (Int64.ofInt (-whole)))
  else
    let (digits, taken, _) := takeDigits whole l.fraction
    (Binary64.ofDecimal? l.isNegative digits (l.exponent + dropped.length - taken)).map .float

/-! ### Strings -/

def hexDigit? (c : Char) : Option Nat :=
  if c.isDigit then some (c.toNat - '0'.toNat)
  else if 'a' ≤ c && c ≤ 'f' then some (c.toNat - 'a'.toNat + 10)
  else if 'A' ≤ c && c ≤ 'F' then some (c.toNat - 'A'.toNat + 10)
  else none

/-- The code unit that four digits spell. -/
def codeUnit? (a b c d : Char) : Option Nat := do
  return (((← hexDigit? a) * 16 + (← hexDigit? b)) * 16 + (← hexDigit? c)) * 16 + (← hexDigit? d)

/-- The character of an escape of one letter. -/
def escaped? : Char → Option Char
  | '"' => some '"'
  | '\\' => some '\\'
  | '/' => some '/'
  | 'b' => some '\x08'
  | 'f' => some '\x0c'
  | 'n' => some '\n'
  | 'r' => some '\r'
  | 't' => some '\t'
  | _ => none

/-- The rest of a string after its opening quotation mark, with the text that follows it. Two code
units escaped side by side may spell one character beyond the first 2¹⁶. -/
def stringTail? : List Char → Option (List Char × List Char)
  | [] => none
  | '"' :: rest => some ([], rest)
  | '\\' :: 'u' :: a :: b :: c :: d :: rest => do
    let unit ← codeUnit? a b c d
    if 0xD800 ≤ unit && unit < 0xDC00 then
      match rest with
      | '\\' :: 'u' :: a :: b :: c :: d :: rest =>
        let low ← codeUnit? a b c d
        guard (0xDC00 ≤ low && low < 0xE000)
        let (s, rest) ← stringTail? rest
        return (Char.ofNat (0x10000 + (unit - 0xD800) * 0x400 + (low - 0xDC00)) :: s, rest)
      | _ => none
    else
      guard (!(0xDC00 ≤ unit && unit < 0xE000))
      let (s, rest) ← stringTail? rest
      return (Char.ofNat unit :: s, rest)
  | '\\' :: c :: rest => do
    let c ← escaped? c
    let (s, rest) ← stringTail? rest
    return (c :: s, rest)
  | c :: rest => do
    guard (' ' ≤ c && c != '\\')
    let (s, rest) ← stringTail? rest
    return (c :: s, rest)

def string? : List Char → Option (String × List Char)
  | '"' :: rest => (stringTail? rest).map fun (s, rest) => (String.ofList s, rest)
  | _ => none

/-! ### Values -/

mutual

/-- The value at the front of a text. Each step down spends one of `depth`, and a text is never
nested deeper than it is long. -/
def value? : (depth : Nat) → List Char → Option (Json × List Char)
  | 0, _ => none
  | depth + 1, cs =>
    match skipBlanks cs with
    | '{' :: rest =>
      match skipBlanks rest with
      | '}' :: rest => some (.object [], rest)
      | cs => (fields? depth cs).map fun (fields, rest) => (.object (Object.ofFields fields), rest)
    | '[' :: rest =>
      match skipBlanks rest with
      | ']' :: rest => some (.array [], rest)
      | cs => (items? depth cs).map fun (items, rest) => (.array items, rest)
    | '"' :: rest => (string? ('"' :: rest)).map fun (s, rest) => (.string s, rest)
    | 'n' :: rest => (afterWord? "ull".toList rest).map (.null, ·)
    | 't' :: rest => (afterWord? "rue".toList rest).map (.bool true, ·)
    | 'f' :: rest => (afterWord? "alse".toList rest).map (.bool false, ·)
    | cs => do
      let (l, rest) ← literal? cs
      let n ← l.number?
      return (.number n, rest)

def items? : (depth : Nat) → List Char → Option (List Json × List Char)
  | 0, _ => none
  | depth + 1, cs => do
    let (item, rest) ← value? depth cs
    match skipBlanks rest with
    | ',' :: rest =>
      let (items, rest) ← items? depth rest
      return (item :: items, rest)
    | ']' :: rest => return ([item], rest)
    | _ => none

def fields? : (depth : Nat) → List Char → Option (List (String × Json) × List Char)
  | 0, _ => none
  | depth + 1, cs => do
    let (name, rest) ← string? (skipBlanks cs)
    let rest ← afterWord? [':'] (skipBlanks rest)
    let (value, rest) ← value? depth rest
    match skipBlanks rest with
    | ',' :: rest =>
      let (fields, rest) ← fields? depth rest
      return ((name, value) :: fields, rest)
    | '}' :: rest => return ([(name, value)], rest)
    | _ => none

end

end Reader

def ofText? (text : String) : Option Json := do
  let cs := text.toList
  let (value, rest) ← Reader.value? (cs.length + 1) cs
  guard (Reader.skipBlanks rest).isEmpty
  return value

end LedgerAppendix.Json
