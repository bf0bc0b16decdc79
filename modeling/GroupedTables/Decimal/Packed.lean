import GroupedTables.Decimal.Text
import GroupedTables.Fault.RowDefect

/-!
# Packed decimals

The stored form of a decimal of fixed precision and scale. Digits are grouped in nines from
the decimal point outwards; a full group takes four bytes, most significant first, and a
group of fewer digits only as many as it needs. The integral rest comes first, the
fractional rest last. A negative number has every byte inverted, and then the top bit of
the first byte is flipped for both signs, so that stored decimals sort as bytes the way
they sort as numbers.
-/

namespace GroupedTables.Decimal

open Text

def fullGroup : Nat := 9

/-- Bytes that so many digits of one group take. -/
def groupBytes (digits : Nat) : Nat := [0, 1, 1, 2, 2, 3, 3, 4, 4, 4].getD digits 0

def integralDigits (precision scale : Nat) : Nat := precision - scale

def packedSize (precision scale : Nat) : Nat :=
  let whole := integralDigits precision scale
  whole / fullGroup * 4 + groupBytes (whole % fullGroup) +
    (scale / fullGroup * 4 + groupBytes (scale % fullGroup))

/-- A rest of digits as a list of groups: none if there are no digits. -/
def restGroup (digits : Nat) : List Nat := if digits = 0 then [] else [digits]

/-- How many digits each group before the point has. -/
def integralGroups (precision scale : Nat) : List Nat :=
  let whole := integralDigits precision scale
  restGroup (whole % fullGroup) ++ List.replicate (whole / fullGroup) fullGroup

/-- How many digits each group after the point has. -/
def fractionGroups (scale : Nat) : List Nat :=
  List.replicate (scale / fullGroup) fullGroup ++ restGroup (scale % fullGroup)

/-- Splits a number into the values of its groups, from the most significant on. -/
def splitGroups (n : Nat) : List Nat → List Nat
  | [] => []
  | _ :: rest => n / Nat.pow 10 rest.sum :: splitGroups (n % Nat.pow 10 rest.sum) rest

/-- A number in so many bytes, most significant first. -/
def bigEndian (n : Nat) : Nat → List UInt8
  | 0 => []
  | width + 1 => UInt8.ofNat (n / Nat.pow 256 width % 256) :: bigEndian n width

/-- The number that bytes stand for, most significant first. -/
def ofBigEndian (bytes : List UInt8) : Nat := bytes.foldl (fun n b => 256 * n + b.toNat) 0

def invertBytes (bytes : List UInt8) : List UInt8 := bytes.map (~~~ ·)

def flipTopBit : List UInt8 → List UInt8
  | [] => []
  | b :: rest => (b ^^^ 0x80) :: rest

/-- The bytes of a magnitude before its sign is folded in. -/
def magnitudeBytes (n : Nat) (groups : List Nat) : List UInt8 :=
  ((splitGroups n groups).zip groups).flatMap fun (value, digits) =>
    bigEndian value (groupBytes digits)

/-- The stored form of a decimal rounded half up to the scale, if it has no more integral
digits than there is room for. A value with its leading digit too far up is refused before
anything is computed from it. -/
def encode (d : Decimal) (precision scale : Nat) : Except RowDefect (List UInt8) :=
  let whole := integralDigits precision scale
  let misfit := Except.error (.decimalOverflow d.text precision scale)
  if d.units ≠ 0 ∧ (whole : Int) < d.magnitude then misfit
  else
    let units := d.roundedUnits scale
    if Nat.pow 10 (whole + scale) ≤ units.natAbs then misfit
    else
      let groups := integralGroups precision scale ++ fractionGroups scale
      let bytes := magnitudeBytes units.natAbs groups
      .ok (flipTopBit (if units < 0 then invertBytes bytes else bytes))

/-- Reads the values of groups off the front of bytes. -/
def readGroups (bytes : List UInt8) : List Nat → List Nat × List UInt8
  | [] => ([], bytes)
  | digits :: rest =>
    let width := groupBytes digits
    let (values, left) := readGroups (bytes.drop width) rest
    (ofBigEndian (bytes.take width) :: values, left)

/-- A stored decimal in digits: its sign, what stands before the point without leading zeros,
and what stands after it. A group that holds more than its digits can say is written out in
full. -/
structure Digits where
  negative : Bool
  integral : List Char
  fraction : List Char
  deriving Repr, DecidableEq

namespace Digits

/-- Whether there is a digit other than zero. -/
def isZero (d : Digits) : Bool := d.integral.isEmpty && d.fraction.all (· = '0')

/-- The digits with sign and point. There is at least one before the point, and a minus sign
only if the value is not zero. -/
def chars (d : Digits) : List Char :=
  let sign := if d.negative && !d.isZero then ['-'] else []
  let whole := if d.integral.isEmpty then ['0'] else d.integral
  let point := if d.fraction.isEmpty then [] else '.' :: d.fraction
  sign ++ whole ++ point

def decimal (d : Digits) : Decimal :=
  let n : Int := digitsValue (d.integral ++ d.fraction)
  ⟨if d.negative then -n else n, d.fraction.length⟩

end Digits

def readDigits (bytes : List UInt8) (precision scale : Nat) : Except RowDefect Digits :=
  let expected := packedSize precision scale
  if bytes.length ≠ expected then
    .error (.decimalWidth precision scale expected bytes.length)
  else
    let negative := match bytes with
      | [] => false
      | b :: _ => b < 0x80
    let plain := flipTopBit (if negative then invertBytes bytes else bytes)
    let whole := integralGroups precision scale
    let (integral, rest) := readGroups plain whole
    let places := fractionGroups scale
    let (fraction, _) := readGroups rest places
    let filled (values groups : List Nat) : List Char :=
      (values.zip groups).flatMap fun (value, digits) => zeroFilled digits value
    .ok {
      negative
      integral := (filled integral whole).dropWhile (· = '0')
      fraction := filled fraction places }

/-- The text of a stored decimal. It is never empty. -/
def decodeText (bytes : List UInt8) (precision scale : Nat) : Except RowDefect String :=
  (readDigits bytes precision scale).map fun d => String.ofList d.chars

def decode (bytes : List UInt8) (precision scale : Nat) : Except RowDefect Decimal :=
  (readDigits bytes precision scale).map Digits.decimal

end GroupedTables.Decimal
