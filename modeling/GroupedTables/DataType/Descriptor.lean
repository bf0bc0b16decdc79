import GroupedTables.DataType.Basic
import GroupedTables.Decimal.Packed
import GroupedTables.Json.Decode
import GroupedTables.Text.Normal

/-!
# Type descriptors

A column type with the declared attributes that settle how its values are stored: how long
a text may be, how many digits a decimal has, which charset the characters are in. From
them follow the most bytes a value can take and the width of the length in front of it.
-/

namespace GroupedTables

structure TypeDescriptor where
  type : DataType
  /-- Declared length of a text in characters, or of a binary string in bytes. -/
  length : Option Nat := none
  precision : Nat := 0
  scale : Nat := 0
  signedness : Signedness := .signed
  charset : Option String := none
  collation : Option String := none
  deriving Repr, DecidableEq, Inhabited

namespace TypeDescriptor

def defaultCharset : String := "utf8"

/-- Most bytes of a value whose type has no declared length. -/
def unboundedPayload : Nat := 65535

/-- A type without attributes. Text is in the default charset. -/
def ofType (type : DataType) : TypeDescriptor :=
  { type, charset := if type.isText then some defaultCharset else none }

/-- A decimal with so many digits, so many of them after the point. -/
def decimal (precision scale : Nat) : TypeDescriptor := { ofType .decimal with precision, scale }

/-- Whether values below zero are excluded. -/
def isUnsigned (d : TypeDescriptor) : Bool := d.signedness == .unsigned

/-- Most bytes one character takes in the charset; three if the charset is not a known one. -/
def maxCharBytes (d : TypeDescriptor) : Nat :=
  match d.charset.map Text.asciiLower with
  | some "latin1" => 1
  | some "ascii" => 1
  | some "binary" => 1
  | some "utf8mb4" => 4
  | _ => 3

/-- Most bytes of a value without the length in front of it, reckoned in a word. -/
def maxPayload (d : TypeDescriptor) : Nat :=
  match d.type with
  | .decimal => Decimal.packedSize d.precision d.scale
  | .char | .varchar => d.length.getD 1 * d.maxCharBytes % Word.bound
  | .binary | .varBinary => d.length.getD 1
  | .text | .blob => unboundedPayload
  | t => t.fixedWidth?.getD 0

/-- Bytes of the length in front of a value: as many as the longest value needs, up to four. -/
def lengthWidth (d : TypeDescriptor) : Nat :=
  if !d.type.isVariableWidth then 0
  else if d.maxPayload ≤ 0xFF then 1
  else if d.maxPayload ≤ 0xFFFF then 2
  else if d.maxPayload ≤ 0xFFFFFF then 3
  else 4

/-- Most bytes of a value with the length in front of it. -/
def maxStorage (d : TypeDescriptor) : Nat := (d.maxPayload + d.lengthWidth) % Word.bound

/-- The least and the greatest value of an integer type. -/
def integerRange? (d : TypeDescriptor) : Option (Int × Int) :=
  d.type.integerBits?.map fun bits =>
    if d.isUnsigned then (0, (Nat.pow 2 bits : Int) - 1)
    else (-(Nat.pow 2 (bits - 1) : Int), (Nat.pow 2 (bits - 1) : Int) - 1)

/-- Whether two columns may be paired by a join: their types are in one family. -/
def compatible (a b : TypeDescriptor) : Bool :=
  (a.type.isInteger && b.type.isInteger) ||
    (a.type.isFloating && b.type.isFloating) ||
    (a.type.isDecimal && b.type.isDecimal) ||
    (a.type.isText && b.type.isText) ||
    (a.type.isBinary && b.type.isBinary) ||
    a.type == b.type

theorem compatible_comm (a b : TypeDescriptor) : a.compatible b = b.compatible a := by
  simp only [compatible, Bool.and_comm, Bool.beq_comm]

def text (d : TypeDescriptor) : String :=
  let base := match d.type, d.length with
    | .decimal, _ => s!"DECIMAL({d.precision}, {d.scale})"
    | t, some n => if t.isVariableWidth then s!"{t.keyword}({n})" else t.keyword
    | t, none => t.keyword
  if d.isUnsigned then base ++ " UNSIGNED" else base

def toJson (d : TypeDescriptor) : Json :=
  .object [
    ("ty", .string d.type.storedName),
    ("length", Json.optional Json.nat d.length),
    ("precision", Json.nat d.precision),
    ("scale", Json.nat d.scale),
    ("signedness", .string d.signedness.storedName),
    ("charset", Json.optional .string d.charset),
    ("collation", Json.optional .string d.collation)]

/-- Reads the stored form. Precision and scale fit in one byte. -/
def ofJson? (v : Json) : Option TypeDescriptor := do
  let fields ← v.record?
    ["ty", "length", "precision", "scale", "signedness", "charset", "collation"]
  let type ← fields.required "ty" (Json.plainChoice? DataType.ofStoredName?)
  let length ← fields.absentOr "length" Json.word?
  let precision ← fields.required "precision" (Json.below? 256)
  let scale ← fields.required "scale" (Json.below? 256)
  let signedness ← fields.required "signedness" (Json.plainChoice? Signedness.ofStoredName?)
  let charset ← fields.absentOr "charset" Json.string?
  let collation ← fields.absentOr "collation" Json.string?
  return { type, length, precision, scale, signedness, charset, collation }

end TypeDescriptor

end GroupedTables
