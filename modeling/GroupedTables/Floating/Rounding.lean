import GroupedTables.Floating.Format

/-!
# Rounding to a format

A positive fraction goes to the nearest number of a format, and a fraction halfway
between two of them to the one with an even significand. Everything that leaves the exact
integers (reading decimal text, adding a half) passes through this one rounding.
-/

namespace GroupedTables.Floating

/-- The quotient rounded to the nearest integer, a half to the even neighbour. -/
def roundHalfEven (num den : Nat) : Nat :=
  let quotient := num / den
  let twice := 2 * (num % den)
  if twice < den then quotient
  else if den < twice then quotient + 1
  else quotient + quotient % 2

/-- The fraction `num / den` in units of `2 ^ q`. -/
def inUnits (num den : Nat) (q : Int) : Nat × Nat :=
  if q < 0 then (num * Nat.pow 2 (-q).toNat, den) else (num, den * Nat.pow 2 q.toNat)

namespace Format

/-- The exponent of the unit in which the fraction has a full significand, or the least
exponent for fractions too small for that. The logarithms miss it by one at most. -/
def unitExponent (f : Format) (num den : Nat) : Int :=
  let guess : Int := (num.log2 : Int) - den.log2 - f.fractionBits
  if guess ≤ f.leastExponent then f.leastExponent
  else
    let (n, d) := inUnits num den guess
    if n / d < Nat.pow 2 f.fractionBits then guess - 1 else guess

/-- The number of the format nearest to `± num / den`. -/
def nearest (f : Format) (negative : Bool) (num den : Nat) : Number :=
  if num = 0 then .finite negative 0 f.leastExponent
  else
    let q := f.unitExponent num den
    let (n, d) := inUnits num den q
    let m := roundHalfEven n d
    let (m, q) := if m = f.significandBound then (Nat.pow 2 f.fractionBits, q + 1) else (m, q)
    if f.leastExponent + (f.topField - 2 : Nat) < q then .infinite negative
    else .finite negative m q

end Format

namespace Number

/-- The value as a whole number of units `2 ^ e`, for an `e` not above its exponent. -/
def signedUnits (negative : Bool) (m : Nat) (q e : Int) : Int :=
  let n : Int := m * Nat.pow 2 (q - e).toNat
  if negative then -n else n

/-- The sum of a number and one half, rounded to eight bytes. -/
def addHalf : Number → Number
  | .finite negative m q =>
    let e := min q (-1)
    let total := signedUnits negative m q e + Nat.pow 2 (-1 - e).toNat
    binary64.nearest (decide (total < 0)) total.natAbs (Nat.pow 2 (-e).toNat)
  | x => x

/-- The largest integer not above a finite number. -/
def floor (negative : Bool) (m : Nat) (q : Int) : Int :=
  let n : Int := if negative then -(m : Int) else m
  if q < 0 then n / Nat.pow 2 (-q).toNat else n * Nat.pow 2 q.toNat

/-- Whether two numbers are equal in value: both zeros are, and nothing equals a number that
is none. -/
def sameValue : Number → Number → Bool
  | .finite s m q, .finite t n r =>
    let e := min q r
    signedUnits s m q e == signedUnits t n r e
  | .infinite s, .infinite t => s == t
  | _, _ => false

/-- The eight-byte number nearest to an integer. -/
def ofInt (n : Int) : Number := binary64.nearest (decide (n < 0)) n.natAbs 1

end Number

end GroupedTables.Floating
