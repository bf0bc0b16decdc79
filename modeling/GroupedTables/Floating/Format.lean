/-!
# Binary floating point numbers

A number is taken apart into sign, significand and exponent, and from then on it is
exact: `m · 2 ^ q` with a natural `m`. Nothing here computes with machine floats, so the
text of a number and the rounding of a sum can be stated and checked as integer facts.
-/

namespace GroupedTables.Floating

/-- How many bits an interchange format spends on fraction and exponent. -/
structure Format where
  fractionBits : Nat
  exponentBits : Nat
  deriving Repr, DecidableEq

def binary32 : Format := ⟨23, 8⟩

def binary64 : Format := ⟨52, 11⟩

namespace Format

/-- The largest exponent field; it marks infinities and numbers that are none. -/
def topField (f : Format) : Nat := Nat.pow 2 f.exponentBits - 1

/-- The exponent of the smallest positive number. -/
def leastExponent (f : Format) : Int :=
  2 - (Nat.pow 2 (f.exponentBits - 1) : Int) - f.fractionBits

def significandBound (f : Format) : Nat := Nat.pow 2 (f.fractionBits + 1)

end Format

/-- What a bit pattern stands for. -/
inductive Number where
  /-- `± significand · 2 ^ exponent`. -/
  | finite (negative : Bool) (significand : Nat) (exponent : Int)
  | infinite (negative : Bool)
  | nan
  deriving Repr, DecidableEq, Inhabited

/-- The number a bit pattern stands for. -/
def Format.decode (f : Format) (bits : Nat) : Number :=
  let fraction := bits % Nat.pow 2 f.fractionBits
  let field := bits / Nat.pow 2 f.fractionBits % Nat.pow 2 f.exponentBits
  let negative := bits / Nat.pow 2 (f.fractionBits + f.exponentBits) % 2 == 1
  if field = f.topField then
    if fraction = 0 then .infinite negative else .nan
  else if field = 0 then .finite negative fraction f.leastExponent
  else .finite negative (Nat.pow 2 f.fractionBits + fraction) (f.leastExponent + (field - 1 : Nat))

/-- Times a power of two, as a fraction of natural numbers. -/
def scaled (n : Nat) (q : Int) : Nat × Nat :=
  if q < 0 then (n, Nat.pow 2 (-q).toNat) else (n * Nat.pow 2 q.toNat, 1)

structure Single where
  bits : UInt32
  deriving Repr, DecidableEq

structure Double where
  bits : UInt64
  deriving Repr, DecidableEq

def Single.number (x : Single) : Number := binary32.decode x.bits.toNat

def Double.number (x : Double) : Number := binary64.decode x.bits.toNat

end GroupedTables.Floating
