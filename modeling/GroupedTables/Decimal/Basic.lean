import GroupedTables.Text.Digits

/-!
# Decimal numbers

A decimal is a whole number of units and the number of decimal places of a unit, so `12.30`
and `12.3` are different decimals of equal value. Places may be negative, and as many as
eight bytes can count: nothing here raises ten to the number of places, since a short text
can name a decimal with more digits than fit in memory. Values are compared and rounded by
the position of their leading digit first.
-/

namespace GroupedTables

/-- The number `units · 10 ^ -scale`. -/
structure Decimal where
  units : Int
  scale : Int
  deriving Repr, DecidableEq, Inhabited

namespace Decimal

open Text

/-- How many digits the units have; one for zero. -/
def digitCount (d : Decimal) : Nat := (digits d.units.natAbs).length

/-- The decimal exponent just above the leading digit: a nonzero magnitude is below ten to
that power, and not below a tenth of it. -/
def magnitude (d : Decimal) : Int := d.digitCount - d.scale

/-- Compares the magnitudes of two nonzero decimals. Only decimals with leading digits in the
same position are brought to the same scale. -/
def compareMagnitude (a b : Decimal) : Ordering :=
  match compare a.magnitude b.magnitude with
  | .eq =>
    let s := max a.scale b.scale
    compare (a.units.natAbs * Nat.pow 10 (s - a.scale).toNat)
      (b.units.natAbs * Nat.pow 10 (s - b.scale).toNat)
  | order => order

def order (a b : Decimal) : Ordering :=
  match compare a.units.sign b.units.sign with
  | .eq =>
    if a.units = 0 then .eq
    else if 0 < a.units then compareMagnitude a b
    else (compareMagnitude a b).swap
  | unequal => unequal

/-- A magnitude with some of its last digits rounded away, a half upwards. With more digits
rounded away than there are, at most a tenth is left, which is nothing. -/
def dropDigits (n count : Nat) : Nat :=
  if (digits n).length < count then 0 else (2 * n + Nat.pow 10 count) / (2 * Nat.pow 10 count)

/-- The decimal in units of `10 ^ -places`, its magnitude rounded half up. -/
def roundedUnits (d : Decimal) (places : Nat) : Int :=
  if d.units = 0 then 0
  else if d.scale ≤ places then d.units * Nat.pow 10 (places - d.scale).toNat
  else d.units.sign * dropDigits d.units.natAbs (d.scale - places).toNat

end Decimal

end GroupedTables
