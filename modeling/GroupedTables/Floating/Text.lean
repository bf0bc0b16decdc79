import GroupedTables.Floating.Rounding
import GroupedTables.Floating.Shortest
import GroupedTables.Text.Digits

/-!
# Floats as text

Floats are written with the fewest digits that read back, always positionally, whatever
their size. They are read from decimal text with an optional point and exponent, or from
the names of the infinities and of the number that is none.
-/

namespace GroupedTables.Floating

open Text

/-- The digits of a positive decimal without the zeros at its end. -/
def Decimal10.trimmed (d : Decimal10) : List Char × Int :=
  let ds := Text.digits d.digits
  let zeros := (ds.reverse.takeWhile (· = '0')).length
  (ds.take (ds.length - zeros), d.exponent + zeros)

/-- Digits with the point put in place: `whole` counts the digits before it. -/
def positional (ds : List Char) (whole : Int) : List Char :=
  if whole ≤ 0 then '0' :: '.' :: List.replicate (-whole).toNat '0' ++ ds
  else if (ds.length : Int) ≤ whole then ds ++ List.replicate (whole.toNat - ds.length) '0'
  else ds.take whole.toNat ++ '.' :: ds.drop whole.toNat

def Format.text (f : Format) : Number → String
  | .nan => "NaN"
  | .infinite negative => if negative then "-inf" else "inf"
  | .finite negative m q =>
    let sign := if negative then ['-'] else []
    if m = 0 then String.ofList (sign ++ ['0'])
    else
      let (ds, e) := (f.shortest m q).trimmed
      String.ofList (sign ++ positional ds (e + ds.length))

def Single.text (x : Single) : String := binary32.text x.number

def Double.text (x : Double) : String := binary64.text x.number

/-- Digits and a point, taken as a whole number with so many decimals. At least one digit. -/
def mantissa? (cs : List Char) : Option (Nat × Nat) :=
  let whole := cs.takeWhile Char.isDigit
  let rest := cs.dropWhile Char.isDigit
  let decimals? := match rest with
    | [] => some []
    | c :: ds => if c = '.' && allDigits ds then some ds else none
  match decimals? with
  | none => none
  | some ds =>
    if whole.isEmpty && ds.isEmpty then none
    else some (digitsValue (whole ++ ds), ds.length)

def signedDigits? (cs : List Char) : Option Int :=
  let value (ds : List Char) : Option Nat :=
    if ds.isEmpty || !allDigits ds then none
    else some (digitsValue ds)
  match cs with
  | '-' :: ds => (value ds).map fun n => -(n : Int)
  | '+' :: ds => (value ds).map fun n => (n : Int)
  | ds => (value ds).map fun n => (n : Int)

/-- The eight-byte number nearest to `± n · 10 ^ e`. Far outside the range of the format the
power is not computed: the outcome is infinite or zero. -/
def ofDecimal (negative : Bool) (n : Nat) (e : Int) : Number :=
  let size : Int := (Text.digits n).length + e
  if n = 0 || size < -400 then .finite negative 0 binary64.leastExponent
  else if 400 < size then .infinite negative
  else if e < 0 then binary64.nearest negative n (Nat.pow 10 (-e).toNat)
  else binary64.nearest negative (n * Nat.pow 10 e.toNat) 1

def unsignedNumber? (negative : Bool) (cs : List Char) : Option Number :=
  let name := cs.map Char.toLower
  if name = "inf".toList || name = "infinity".toList then some (.infinite negative)
  else if name = "nan".toList then some .nan
  else
    let isMark (c : Char) : Bool := c = 'e' || c = 'E'
    let front := cs.takeWhile (!isMark ·)
    let exponent? := match cs.dropWhile (!isMark ·) with
      | [] => some 0
      | _ :: digits => signedDigits? digits
    match mantissa? front, exponent? with
    | some (n, decimals), some e => some (ofDecimal negative n (e - decimals))
    | _, _ => none

def number? (text : String) : Option Number :=
  match text.toList with
  | '-' :: cs => unsignedNumber? true cs
  | '+' :: cs => unsignedNumber? false cs
  | cs => unsignedNumber? false cs

end GroupedTables.Floating
