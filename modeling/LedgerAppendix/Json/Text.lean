import LedgerAppendix.Number

/-!
# JSON values

An attachment is a JSON object, and what a reader of attachments has to tell apart fixes the shape
of the values. Numbers come in three kinds that never mix: only a `natural` number counts as an
unsigned integer, so `1` is one and `1.0` is not.

An object is its fields in ascending order of their names, each name once. `insert` keeps that
order, and the two look-up laws at the end hold of any list of fields, ordered or not.
-/

namespace LedgerAppendix

/-- A JSON number. Integers beyond these two ranges exist only as floating-point numbers. -/
inductive Json.Number where
  /-- An integer of 64 bits without a sign. -/
  | natural (value : UInt64)
  /-- An integer below zero of 64 bits with a sign. -/
  | negative (value : Int64)
  /-- A finite floating-point number. -/
  | float (value : Binary64)
deriving DecidableEq, Repr

inductive Json where
  | null
  | bool (value : Bool)
  | number (value : Json.Number)
  | string (value : String)
  | array (items : List Json)
  | object (fields : List (String × Json))
deriving Repr

namespace Json

/-- The fields of a JSON object. -/
abbrev Object := List (String × Json)

def ofWord (n : UInt64) : Json := .number (.natural n)

/-- The integer that a value is, if it is an unsigned one. -/
def word? : Json → Option UInt64
  | .number (.natural n) => some n
  | _ => none

def isNull : Json → Bool
  | .null => true
  | _ => false

namespace Object

def get? : Object → String → Option Json
  | [], _ => none
  | (name, value) :: rest, key => if name = key then some value else get? rest key

/-- Give a field a value, in place of the one that it has or at its place in the order of names. -/
def insert (key : String) (value : Json) : Object → Object
  | [] => [(key, value)]
  | (name, held) :: rest =>
    if name = key then (key, value) :: rest
    else if key < name then (key, value) :: (name, held) :: rest
    else (name, held) :: insert key value rest

/-- The object with the given fields; of two with one name the later counts. -/
def ofFields (fields : List (String × Json)) : Object :=
  fields.foldl (fun o field => o.insert field.1 field.2) []

theorem get?_insert (key : String) (value : Json) (o : Object) (name : String) :
    (insert key value o).get? name = if key = name then some value else o.get? name := by
  induction o with
  | nil => simp [insert, get?]
  | cons field rest ih =>
    obtain ⟨held, v⟩ := field
    simp only [insert]
    split
    · next h =>
      -- the key is there: its value is replaced
      subst h
      by_cases hn : held = name <;> simp [get?, hn]
    · -- the key is not the first one
      split
      · -- it comes before the first key, so it goes in front
        simp [get?]
      · next h _ =>
        -- it comes after the first key
        by_cases hn : held = name
        · have hk : ¬key = name := fun e => h (hn.trans e.symm)
          simp [get?, hn, hk]
        · simp [get?, hn, ih]

end Object

/-- A field that is there and not null. -/
def Object.present? (o : Object) (key : String) : Option Json :=
  match o.get? key with
  | some .null => none
  | found => found

end Json

/-!
## The compact text of a JSON value

One line without blanks, fields in the order in which the object holds them. A string escapes the
quotation mark, the backslash and the control characters below the blank, and nothing else. A
floating-point number has its shortest digits, always with a sign that it is not an integer: a
fraction in plain notation, an exponent in scientific notation.
-/

namespace Json

/-! ### Numbers -/

/-- Decimal exponents of the leading digit that are written in plain notation. -/
def plainNotation (leading : Int) : Bool := -5 ≤ leading && leading < 16

def zeros (n : Nat) : String := String.ofList (List.replicate n '0')

/-- Plain notation: at least one digit on either side of the point. -/
def plainText (digits : List Char) (exponent : Int) : String :=
  let whole := (digits.length : Int) + exponent
  if 0 ≤ exponent then String.ofList digits ++ zeros exponent.toNat ++ ".0"
  else if 0 < whole then
    String.ofList (digits.take whole.toNat) ++ "." ++ String.ofList (digits.drop whole.toNat)
  else "0." ++ zeros (-whole).toNat ++ String.ofList digits

/-- Scientific notation: one digit before the point, no point without a fraction, and a sign also
for a positive exponent. -/
def scientificText (digits : List Char) (leading : Int) : String :=
  let fraction := digits.drop 1
  String.ofList (digits.take 1) ++
    (if fraction.isEmpty then "" else "." ++ String.ofList fraction) ++
    (if leading < 0 then "e-" else "e+") ++ toString leading.natAbs

def floatText (x : Binary64) : String :=
  let sign := if x.isNegative then "-" else ""
  if x.isZero then sign ++ "0.0"
  else
    let d := x.shortest
    let digits := Nat.toDigits 10 d.digits
    let leading := d.exponent + digits.length - 1
    sign ++ if plainNotation leading then plainText digits d.exponent
      else scientificText digits leading

def Number.text : Number → String
  | .natural n => toString n.toNat
  | .negative n => toString n.toInt
  | .float x => floatText x

/-! ### Strings -/

/-- A code point below 16² as a four-digit escape. -/
def unicodeEscape (c : Char) : String :=
  "\\u00" ++ String.ofList [Nat.digitChar (c.toNat / 16), Nat.digitChar (c.toNat % 16)]

def charText (c : Char) : String :=
  if c = '"' then "\\\""
  else if c = '\\' then "\\\\"
  else if c = '\x08' then "\\b"
  else if c = '\x0c' then "\\f"
  else if c = '\n' then "\\n"
  else if c = '\r' then "\\r"
  else if c = '\t' then "\\t"
  else if c < ' ' then unicodeEscape c
  else c.toString

def stringText (s : String) : String :=
  "\"" ++ String.join (s.toList.map charText) ++ "\""

/-! ### Values -/

mutual

def text : Json → String
  | .null => "null"
  | .bool b => if b then "true" else "false"
  | .number n => n.text
  | .string s => stringText s
  | .array items => "[" ++ ",".intercalate (itemTexts items) ++ "]"
  | .object fields => "\x7b" ++ ",".intercalate (fieldTexts fields) ++ "\x7d"

def itemTexts : List Json → List String
  | [] => []
  | item :: rest => item.text :: itemTexts rest

def fieldTexts : List (String × Json) → List String
  | [] => []
  | (name, value) :: rest => (stringText name ++ ":" ++ value.text) :: fieldTexts rest

end

end Json

end LedgerAppendix
