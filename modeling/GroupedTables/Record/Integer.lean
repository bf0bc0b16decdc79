import GroupedTables.Fault.Basic

/-!
# Integers in records

Integers of one to eight bytes, least significant first. The same bytes are read as a
natural number or as a number in two's complement; writing keeps the low bytes and drops
the rest.
-/

namespace GroupedTables.Record

/-- The natural number that bytes stand for, least significant first. -/
def ofLittleEndian : List UInt8 → Nat
  | [] => 0
  | b :: rest => b.toNat + 256 * ofLittleEndian rest

/-- The low bytes of an integer in two's complement, least significant first. -/
def littleEndian (value : Int) : Nat → List UInt8
  | 0 => []
  | width + 1 => UInt8.ofNat (value % 256).toNat :: littleEndian (value / 256) width

/-- A number of so many bytes read in two's complement. -/
def twosComplement (width n : Nat) : Int := Int.bmod n (Nat.pow 2 (8 * width))

@[simp] theorem ofLittleEndian_nil : ofLittleEndian [] = 0 := rfl

@[simp] theorem ofLittleEndian_cons (b : UInt8) (rest : List UInt8) :
    ofLittleEndian (b :: rest) = b.toNat + 256 * ofLittleEndian rest := rfl

@[simp] theorem length_littleEndian (value : Int) (width : Nat) :
    (littleEndian value width).length = width := by
  induction width generalizing value with
  | zero => rfl
  | succ width ih => simp [littleEndian, ih]

def span (bytes : List UInt8) (offset width : Nat) : List UInt8 := (bytes.drop offset).take width

/-- The lowest bytes of an integer; there are never more than eight. -/
def integerBytes (value : Int) (width : Nat) : List UInt8 := littleEndian value (min width 8)

/-- The natural number of one to eight bytes at an offset. -/
def unsignedAt (bytes : List UInt8) (offset width : Nat) : Except RowDefect Nat :=
  if width < 1 ∨ 8 < width then .error (.integerWidth width)
  else if bytes.length < offset + width then .error (.integerPastEnd offset (offset + width))
  else .ok (ofLittleEndian (span bytes offset width))

/-- The integer of one to eight bytes at an offset. -/
def signedAt (bytes : List UInt8) (offset width : Nat) : Except RowDefect Int :=
  (unsignedAt bytes offset width).map (twosComplement width)

end GroupedTables.Record
