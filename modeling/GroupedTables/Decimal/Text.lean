import GroupedTables.Decimal.Basic
import GroupedTables.Text.Normal
import GroupedTables.Word

/-!
# Decimal text

Decimals are read from digits with a sign, a point, an exponent and `_` between digits, and
written positionally, but for very small and very large ones, which get an exponent. A
positional text keeps the zeros at its end, because they are part of the decimal.
-/

namespace GroupedTables.Decimal

open Text

/-- Splits a text at the first mark of an exponent: what stands before it, and after it. -/
def splitExponent (cs : List Char) : List Char × Option (List Char) :=
  let isMark (c : Char) : Bool := c = 'e' || c = 'E'
  match cs.dropWhile (!isMark ·) with
  | [] => (cs, none)
  | _ :: rest => (cs.takeWhile (!isMark ·), some rest)

/-- Digits with an optional sign, within sixteen bytes. -/
def exponent? (cs : List Char) : Option Int :=
  let value (ds : List Char) : Option Int :=
    if ds.isEmpty || !ds.all Char.isDigit then none else some (digitsValue ds)
  let signed := match cs with
    | '-' :: ds => (value ds).map (- ·)
    | '+' :: ds => value ds
    | ds => value ds
  signed.filter fun n => decide (-(Nat.pow 2 127 : Int) ≤ n ∧ n < Nat.pow 2 127)

/-- Takes the first point out of a text. A character behind it counts as a place, unless it
is a `_`. -/
def takePoint (cs : List Char) : List Char × Nat :=
  match cs.dropWhile (· ≠ '.') with
  | [] => (cs, 0)
  | _ :: places => (cs.takeWhile (· ≠ '.') ++ places, places.countP (· ≠ '_'))

/-- Digits with an optional sign, and `_` anywhere but in front. -/
def units? (cs : List Char) : Option Int :=
  let value (ds : List Char) : Option Int :=
    match ds with
    | [] => none
    | '_' :: _ => none
    | ds =>
      if ds.all fun c => c.isDigit || c = '_' then some (digitsValue (ds.filter (· ≠ '_')))
      else none
  match cs with
  | '-' :: ds => (value ds).map (- ·)
  | '+' :: ds => value ds
  | ds => value ds

/-- The decimal a text spells, blanks around it aside. The places fit in eight bytes. -/
def parse? (text : String) : Option Decimal :=
  let (base, power) := splitExponent (trimChars text.toList)
  let (digits, places) := takePoint base
  match (power.elim (some 0) exponent?), units? digits with
  | some e, some units =>
    let scale : Int := places - e
    if Word.holds scale then some ⟨units, scale⟩ else none
  | _, _ => none

/-- Above so many places between the point and the leading digit a decimal is written with
an exponent. -/
def mostLeadingZeros : Int := 5

/-- Above so many zeros in place of units a decimal is written with an exponent. -/
def mostTrailingZeros : Int := 15

/-- A decimal with its leading digit before the point, and the exponent that makes up for
it. -/
def scientificChars (ds : List Char) (scale : Int) : List Char :=
  let point := match ds with
    | d :: e :: rest => d :: '.' :: e :: rest
    | ds => ds
  point ++ 'E' :: '-' :: digits (scale - ds.length + 1).toNat

/-- Digits with a point so many places from the end, filled up with zeros in front. -/
def pointChars (ds : List Char) (places : Nat) : List Char :=
  let filled := List.replicate (places + 1 - ds.length) '0' ++ ds
  if places = 0 then filled
  else filled.take (filled.length - places) ++ '.' :: filled.drop (filled.length - places)

def magnitudeChars (n : Nat) (scale : Int) : List Char :=
  let ds := digits n
  if mostLeadingZeros < scale - ds.length then scientificChars ds scale
  else if mostTrailingZeros < -scale then ds ++ 'e' :: '+' :: digits (-scale).toNat
  else if scale < 0 then ds ++ List.replicate (-scale).toNat '0'
  else pointChars ds scale.toNat

/-- The text of a decimal. Zero has no places to show. -/
def text (d : Decimal) : String :=
  if d.units = 0 then "0"
  else
    let sign := if d.units < 0 then ['-'] else []
    String.ofList (sign ++ magnitudeChars d.units.natAbs d.scale)

end GroupedTables.Decimal
