/-!
# Digits

Whole numbers in base ten, plain or filled up with zeros to a width. A minus sign counts
towards the width, so a column of filled numbers stays aligned.

Bytes and code points are written in base sixteen. Stored bytes are shown with capital
digits, two to a byte; code points with small ones and no leading zeros.
-/

namespace GroupedTables.Text

/-- A natural number in base ten. -/
def digits (n : Nat) : List Char := Nat.toDigits 10 n

/-- A natural number with zeros in front up to a width. -/
def zeroFilled (width n : Nat) : List Char :=
  List.replicate (width - (digits n).length) '0' ++ digits n

/-- An integer with zeros after its sign up to a width, the sign included. -/
def signedZeroFilled (width : Nat) : Int → List Char
  | .ofNat n => zeroFilled width n
  | .negSucc n => '-' :: zeroFilled (width - 1) (n + 1)

def digitsValue (ds : List Char) : Nat := ds.foldl (fun n c => 10 * n + (c.toNat - 48)) 0

@[simp] theorem digitsValue_nil : digitsValue [] = 0 := rfl

/-- Whether every character is an ASCII decimal digit. -/
def allDigits (cs : List Char) : Bool := cs.all Char.isDigit

/-- The digit for a value below sixteen, with capital letters. -/
def capitalHexDigit (n : Nat) : Char :=
  if n < 10 then Char.ofNat (48 + n) else Char.ofNat (55 + n)

/-- The digit for a value below sixteen, with small letters. -/
def smallHexDigit (n : Nat) : Char :=
  if n < 10 then Char.ofNat (48 + n) else Char.ofNat (87 + n)

/-- The two capital digits of a byte, high half first. -/
def byteHex (b : UInt8) : List Char :=
  [capitalHexDigit (b.toNat / 16), capitalHexDigit (b.toNat % 16)]

/-- A number in base sixteen with small letters and no leading zeros. -/
def hexDigits (n : Nat) : List Char := Nat.toDigits 16 n

def hexValue? (c : Char) : Option Nat :=
  if '0' ≤ c ∧ c ≤ '9' then some (c.toNat - 48)
  else if 'a' ≤ c ∧ c ≤ 'f' then some (c.toNat - 87)
  else if 'A' ≤ c ∧ c ≤ 'F' then some (c.toNat - 55)
  else none

end GroupedTables.Text
