import GroupedTables.Floating.Format
import GroupedTables.Record.Layout
import GroupedTables.Record.Temporal

/-!
# Building row records

A record is put together field by field. Every field starts out null and can be set any
number of times; a value that does not fit is refused and leaves the field as it was. The
footer is written last, from the payloads that are there then.
-/

namespace GroupedTables.Record

/-- A record under construction: the payload of each field that is not null. -/
structure Builder where
  layout : Layout
  payloads : List (Option (List UInt8))
  deriving Repr, DecidableEq

namespace Builder

def ofLayout (layout : Layout) : Builder := ⟨layout, List.replicate layout.size none⟩

/-- Puts a payload, or null, in the place of a field. -/
def put (b : Builder) (index : Nat) (payload : Option (List UInt8)) : Builder :=
  { b with payloads := b.payloads.set index payload }

def fixedWidth (b : Builder) (index : Nat) : Except RowDefect Nat := do
  let field ← b.layout.field index
  match field.type.fixedWidth? with
  | some width => return width
  | none => throw (.notFixedWidth index field.type.keyword)

def setNull (b : Builder) (index : Nat) : Except Fault Builder := do
  let _ ← b.layout.field index
  return b.put index none

/-- Stores the low bytes of an integer at the width of the field. -/
def setInt (b : Builder) (index : Nat) (value : Int) : Except Fault Builder := do
  let width ← b.fixedWidth index
  return b.put index (integerBytes value width)

/-- Stores the low bytes of a natural number. -/
def setUInt (b : Builder) (index : Nat) (value : Nat) : Except Fault Builder :=
  b.setInt index value

/-- Stores the bits of a four-byte float. -/
def setFloat (b : Builder) (index : Nat) (value : Floating.Single) : Except Fault Builder :=
  b.setInt index (twosComplement 4 value.bits.toNat)

/-- Stores the bits of an eight-byte float. -/
def setDouble (b : Builder) (index : Nat) (value : Floating.Double) : Except Fault Builder :=
  b.setInt index value.bits.toNat

/-- Stores a decimal, rounded half up to the scale of the field. -/
def setDecimal (b : Builder) (index : Nat) (value : Decimal) : Except Fault Builder := do
  let field ← b.layout.field index
  let bytes ← value.encode field.descriptor.precision field.descriptor.scale
  return b.put index bytes

/-- Stores bytes, behind their length where the type has one in front. -/
def setBytes (b : Builder) (index : Nat) (value : List UInt8) : Except Fault Builder := do
  let field ← b.layout.field index
  if field.lengthWidth = 0 then
    return b.put index value
  let most := field.descriptor.maxPayload
  if most < value.length then
    throw (.invalidRow (.payloadTooLong value.length index most))
  return b.put index (integerBytes value.length field.lengthWidth ++ value)

/-- Stores a text in the charset of the field. -/
def setString (b : Builder) (index : Nat) (value : String) : Except Fault Builder := do
  let field ← b.layout.field index
  match field.textCharset.encode value with
  | .ok bytes => b.setBytes index bytes
  | .error e => throw e.fault

def setDate (b : Builder) (index year month day : Nat) : Except Fault Builder :=
  b.setInt index (encodeDate year month day)

def setDateTime (b : Builder) (index year month day hour minute second : Nat) :
    Except Fault Builder :=
  b.setInt index (encodeDateTime year month day hour minute second)

def setTime (b : Builder) (index : Nat) (hour : Int) (minute second : Nat) :
    Except Fault Builder :=
  b.setInt index (encodeTime hour minute second)

/-- Stores a moment in seconds since 1970. -/
def setTimestamp (b : Builder) (index : Nat) (seconds : Int) : Except Fault Builder :=
  b.setInt index seconds

def setYear (b : Builder) (index year : Nat) : Except Fault Builder :=
  b.setInt index (encodeYear year)

/-- The end offset of each payload, when the first one starts at an offset. -/
def endOffsets (start : Nat) : List (Option (List UInt8)) → List Nat
  | [] => []
  | p :: rest =>
    let stop := start + (p.getD []).length
    stop :: endOffsets stop rest

def build (b : Builder) : List UInt8 :=
  b.payloads.flatMap (·.getD []) ++
    (endOffsets 0 b.payloads).flatMap fun (stop : Nat) => littleEndian stop footerEntrySize

end Builder

end GroupedTables.Record
