import GroupedTables.Floating.Format

/-!
# The fewest digits that read back

Every decimal in a small interval around a float rounds to that float. Among them the
written one has the fewest digits, and of those it is the nearest. The interval is closed
when the significand is even, since halfway decimals round to even significands, and it is
narrower below a power of two. Whether a decimal lies in it is a question about integers:
the ends, the float and the decimal are all multiples of one fraction.
-/

namespace GroupedTables.Floating

/-- A positive number `digits · 10 ^ exponent`. -/
structure Decimal10 where
  digits : Nat
  exponent : Int
  deriving Repr, DecidableEq

/-- The decimals that round to a float, over the common denominator `den`. -/
structure Interval where
  low : Nat
  value : Nat
  high : Nat
  den : Nat
  closed : Bool

/-- The interval of a positive float `m · 2 ^ q`. Four parts to a unit, so that the near end
below a power of two is whole too. -/
def Format.interval (f : Format) (m : Nat) (q : Int) : Interval :=
  let narrow := m = Nat.pow 2 f.fractionBits ∧ f.leastExponent < q
  let (unit, den) := scaled 1 (q - 2)
  { low := (if narrow then 4 * m - 1 else 4 * m - 2) * unit
    value := 4 * m * unit
    high := (4 * m + 2) * unit
    den := den
    closed := m % 2 == 0 }

namespace Interval

/-- Whether the fraction `n / d` lies in the interval. -/
def contains (i : Interval) (n d : Nat) : Bool :=
  if i.closed then i.low * d ≤ n * i.den && n * i.den ≤ i.high * d
  else i.low * d < n * i.den && n * i.den < i.high * d

/-- The multiple of `10 ^ e` in the interval that is nearest to its value, the larger one if
both neighbours are equally near. -/
def onGrid? (i : Interval) (e : Int) : Option Decimal10 :=
  let up := Nat.pow 10 e.toNat
  let down := Nat.pow 10 (-e).toNat
  let below := i.value * down / (i.den * up)
  let rest := i.value * down % (i.den * up)
  let lower := i.contains (below * up) down
  let upper := i.contains ((below + 1) * up) down
  if upper && (!lower || i.den * up ≤ 2 * rest) then some ⟨below + 1, e⟩
  else if lower then some ⟨below, e⟩
  else none

/-- The first grid from `10 ^ e` downwards that has a point in the interval. -/
def search (i : Interval) : Nat → Int → Decimal10
  | 0, e => ⟨i.value, e⟩
  | fuel + 1, e => (i.onGrid? e).getD (i.search fuel (e - 1))

/-- An exponent whose power of ten is above every value of that size: three binary digits
are less than one decimal digit. -/
def startExponent (i : Interval) : Int :=
  let bits : Int := (i.value.log2 : Int) - i.den.log2
  if bits < 0 then -((-bits).toNat * 3 / 10 : Nat) + 1 else (bits.toNat / 3 + 1 : Nat)

/-- Enough grids to come from the start to the last digit of any float: each is finer than
the one before, and the finest that can be needed divides the denominator. -/
def gridCount (i : Interval) : Nat := i.value.log2 + i.den.log2 + 20

end Interval

/-- The shortest decimal that reads back as the positive float `m · 2 ^ q`. -/
def Format.shortest (f : Format) (m : Nat) (q : Int) : Decimal10 :=
  let i := f.interval m q
  i.search i.gridCount i.startExponent

end GroupedTables.Floating
