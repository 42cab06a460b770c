/-!
# Binary64 numbers

A floating-point number is kept as its 64 bits: a sign, eleven bits of exponent and 52 bits of
fraction. Everything that is done with one here goes through exact natural-number arithmetic. The
magnitude of a finite number is `significand · 2 ^ exponent`, and `ofRatio?` takes a quotient of
naturals to the nearest such number, ties to the one whose last bit is zero.
-/

namespace LedgerAppendix

structure Binary64 where
  bits : UInt64
deriving DecidableEq, Repr

namespace Binary64

/-- Bits below the sign. -/
def unsignedBits (x : Binary64) : Nat := x.bits.toNat % 0x8000000000000000

def isNegative (x : Binary64) : Bool := decide (0x8000000000000000 ≤ x.bits.toNat)

def isZero (x : Binary64) : Bool := x.unsignedBits == 0

/-- The number with the other sign. -/
def neg (x : Binary64) : Binary64 := ⟨x.bits ^^^ 0x8000000000000000⟩

def zero : Binary64 := ⟨0⟩

def exponentField (x : Binary64) : Nat := x.unsignedBits >>> 52

def fractionField (x : Binary64) : Nat := x.unsignedBits % (1 <<< 52)

/-- The whole number in the magnitude `significand · 2 ^ exponent`. A zero exponent field marks the
numbers without a leading one. -/
def significand (x : Binary64) : Nat :=
  if x.exponentField = 0 then x.fractionField else (1 <<< 52) + x.fractionField

/-- The power of two in the magnitude `significand · 2 ^ exponent`. -/
def exponent (x : Binary64) : Int :=
  if x.exponentField = 0 then -1074 else (x.exponentField : Int) - 1075

def numerator (x : Binary64) : Nat := x.significand <<< x.exponent.toNat

def denominator (x : Binary64) : Nat := 1 <<< (-x.exponent).toNat

/-- The whole number nearest to `num / den`, ties to the even one. -/
def roundQuotient (num den : Nat) : Nat :=
  let whole := num / den
  let rest := 2 * (num % den)
  if rest < den then whole
  else if den < rest then whole + 1
  else whole + whole % 2

/-- The exponent of two that leaves `num / den` with 53 bits before the point, or the least one that
the format has. -/
def scaleOf (num den : Nat) : Int :=
  let guess : Int := (num.log2 : Int) - (den.log2 : Int)
  let reached := den <<< guess.toNat ≤ num <<< (-guess).toNat
  max ((if reached then guess else guess - 1) - 52) (-1074)

/-- The number nearest to `num / den`, ties to the even one, or `none` where that lies beyond the
largest finite number. Counting the significand on from the bits of the exponent carries a
significand rounded up to 2⁵³ into the exponent, as the format wants it. -/
def ofRatio? (num den : Nat) : Option Binary64 :=
  if num = 0 then some zero
  else
    let scale := scaleOf num den
    let bits := ((scale + 1074).toNat <<< 52) +
      roundQuotient (num <<< (-scale).toNat) (den <<< scale.toNat)
    if bits < 2047 <<< 52 then some ⟨UInt64.ofNat bits⟩ else none

/-- The magnitude times a factor given as a quotient, rounded. -/
def scale? (x : Binary64) (num den : Nat) : Option Binary64 :=
  ofRatio? (x.numerator * num) (x.denominator * den)

def tenPow? (k : Nat) : Option Binary64 := ofRatio? (Nat.pow 10 k) 1

/-- The largest power of ten that is a finite number. -/
def maxTenPow : Nat := 308

/-- Divide a magnitude by `10 ^ k` in steps of at most `10 ^ 308`, each step rounded. -/
def divTenPow? (x : Binary64) (k : Nat) : Option Binary64 :=
  if k ≤ maxTenPow then do
    let p ← tenPow? k
    x.scale? p.denominator p.numerator
  else if x.isZero then some zero
  else do
    let p ← tenPow? maxTenPow
    let y ← x.scale? p.denominator p.numerator
    y.divTenPow? (k - maxTenPow)
termination_by k
decreasing_by simp only [maxTenPow] at *; omega

/-- Multiply a magnitude by `10 ^ k`, rounded; `none` beyond the largest finite number. -/
def mulTenPow? (x : Binary64) (k : Nat) : Option Binary64 :=
  if x.isZero then some zero
  else if k ≤ maxTenPow then do
    let p ← tenPow? k
    x.scale? p.numerator p.denominator
  else none

/-- The number that a decimal `digits · 10 ^ exponent` is read as. The digits are taken to the
nearest number first and the result is scaled by a power of ten, with a rounding in every step. -/
def ofDecimal? (negative : Bool) (digits : Nat) (exponent : Int) : Option Binary64 := do
  let leading ← ofRatio? digits 1
  let x ← if 0 ≤ exponent then leading.mulTenPow? exponent.toNat
    else leading.divTenPow? (-exponent).toNat
  return if negative then x.neg else x

end Binary64

/-!
## Shortest decimals

The decimal text of a binary64 number carries the fewest digits from which the number is read back.
All reals between the midpoints to the two neighbouring numbers are read back as the number; the
midpoints themselves are where its significand is even. The wanted decimal is a point of the
coarsest grid of multiples of a power of ten that meets this interval, and of two such points the
nearer one, with a tie going to the even digit.

Only the two grid points next to the number have to be tried: if any point of a grid lies in the
interval, so does one of them.
-/

/-- A decimal `digits · 10 ^ exponent`. -/
structure Decimal where
  digits : Nat
  exponent : Int
deriving DecidableEq, Repr

namespace Binary64

/-- The interval of reals that are read back as a number: `low`, `middle` (the number) and `high`
over one denominator `unit`, and whether the two ends belong to it. -/
structure Interval where
  low : Nat
  middle : Nat
  high : Nat
  unit : Nat
  closed : Bool

/-- The rounding interval of a finite magnitude. In quarters of the last place, the upper midpoint
is two above. The lower one is two below, or one below where the number is the least with its
exponent, because the numbers beneath are twice as dense there. -/
def interval (x : Binary64) : Interval :=
  let quarters := 4 * x.significand
  let below := if x.fractionField = 0 ∧ 1 < x.exponentField then 1 else 2
  let up := (x.exponent - 2).toNat
  { low := (quarters - below) <<< up
    middle := quarters <<< up
    high := (quarters + 2) <<< up
    unit := 1 <<< (2 - x.exponent).toNat
    closed := x.significand % 2 = 0 }

/-- Whether `n / d` lies in the interval. -/
def Interval.contains (i : Interval) (n d : Nat) : Bool :=
  if i.closed then i.low * d ≤ n * i.unit && n * i.unit ≤ i.high * d
  else i.low * d < n * i.unit && n * i.unit < i.high * d

/-- The point of the grid of multiples of `10 ^ exponent` that stands for the interval's number, if
the interval holds one: the nearer of the two around the number, or the even one in a tie. -/
def Interval.onGrid? (i : Interval) (exponent : Int) : Option Decimal :=
  let up := Nat.pow 10 exponent.toNat
  let down := Nat.pow 10 (-exponent).toNat
  let num := i.middle * down
  let den := i.unit * up
  let below := num / den
  let nearest := roundQuotient num den
  let inside (digits : Nat) := i.contains (digits * up) down
  if inside nearest then some ⟨nearest, exponent⟩
  else if inside below then some ⟨below, exponent⟩
  else if inside (below + 1) then some ⟨below + 1, exponent⟩
  else none

/-- The grids from the coarsest that a finite number can meet to the finest. -/
def gridExponents : List Int := (List.range 650).map fun (i : Nat) => 309 - (i : Int)

/-- The shortest decimal that is read back as a positive finite magnitude. -/
def shortest (x : Binary64) : Decimal :=
  (gridExponents.findSome? x.interval.onGrid?).getD ⟨0, 0⟩

end Binary64

end LedgerAppendix
