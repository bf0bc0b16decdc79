import GroupedTables.Floating.Text
import GroupedTables.Record.Layout
import GroupedTables.Record.Quote
import GroupedTables.Record.Temporal

/-!
# Reading fields of records

One field of one record, ready to be read. The bytes, the type and the location need not
belong together: every read checks the location against the record, and the length in front
of a payload against the location, before it takes a byte. No read of a null field
succeeds, but null can be rendered.
-/

namespace GroupedTables.Record

structure Field where
  bytes : List UInt8
  index : Nat
  type : FieldType
  location : Nat
  deriving Repr, DecidableEq

/-- A field at the place the footer of a record gives it. -/
def Layout.read (l : Layout) (bytes : List UInt8) (index : Nat) : Except Fault Field := do
  let location ← l.location bytes index
  let type ← l.field index
  return { bytes, index, type, location }

namespace Field

def isNull (f : Field) : Bool := f.location == 0

/-- The offset and width of a field that is not null and lies within the record. -/
def extent (f : Field) : Except Fault (Nat × Nat) :=
  if f.isNull then .error (.nullValue f.index)
  else
    let offset := locationOffset f.location
    let width := locationWidth f.location
    if f.bytes.length < offset + width then
      .error (.invalidRow (.pastEnd f.index offset (offset + width) f.bytes.length))
    else .ok (offset, width)

/-- The field as an integer in two's complement. -/
def signed (f : Field) : Except Fault Int := do
  let (offset, width) ← f.extent
  signedAt f.bytes offset width

def unsigned (f : Field) : Except Fault Nat := do
  let (offset, width) ← f.extent
  unsignedAt f.bytes offset width

/-- The bytes of the field, without the length in front of them. -/
def payload (f : Field) : Except Fault (List UInt8) := do
  let (offset, width) ← f.extent
  let before := f.type.lengthWidth
  if before = 0 then
    return span f.bytes offset width
  if width < before then
    throw (.invalidRow (.shorterThanLength f.index))
  let length ← unsignedAt f.bytes offset before
  if length ≠ width - before then
    throw (.invalidRow (.lengthMismatch f.index length (width - before)))
  return span f.bytes (offset + before) (width - before)

/-- A four-byte float from the low bits of the field. -/
def single (f : Field) : Except Fault Floating.Single :=
  f.signed.map fun n => ⟨UInt32.ofInt n⟩

/-- An eight-byte float from the bits of the field. -/
def double (f : Field) : Except Fault Floating.Double :=
  f.signed.map fun n => ⟨UInt64.ofInt n⟩

def packed (f : Field) : Except Fault (List UInt8) :=
  f.extent.map fun (offset, width) => span f.bytes offset width

def decimal (f : Field) : Except Fault Decimal := do
  let bytes ← f.packed
  Decimal.decode bytes f.type.descriptor.precision f.type.descriptor.scale

def string (f : Field) : Except Fault String := do
  let bytes ← f.payload
  (f.type.textCharset.decode bytes).mapError CodingError.fault

/-- The distance of a year from 1900, in one byte. -/
def year (f : Field) : Except Fault Int := f.signed.map (· % 256)

/-- What stands in place of a text that cannot be decoded. -/
def undecodableText (e : CodingError) : List Char := s!"<encoding exception! {e.message}>".toList

/-- The value of a field that is not null, without quotes around it. Text that cannot be
decoded is replaced by what is wrong with it. -/
def valueText (f : Field) (q : Quote) : Except Fault (List Char) :=
  match f.type.type with
  | .char | .varchar | .text => do
    let bytes ← f.payload
    match q.escapeBytes bytes f.type.textCharset with
    | .ok text => return text
    | .error e => return q.escape (undecodableText e)
  | .decimal => do
    let bytes ← f.packed
    let text ← Decimal.decodeText bytes f.type.descriptor.precision f.type.descriptor.scale
    return text.toList
  | .tinyInt | .smallInt | .mediumInt | .int | .bigInt =>
    if f.type.descriptor.isUnsigned then f.unsigned.map fun n => (toString n).toList
    else f.signed.map fun n => (toString n).toList
  | .float => f.single.map fun x => x.text.toList
  | .double => f.double.map fun x => x.text.toList
  | .binary | .varBinary | .blob => f.payload.map fun bytes => bytes.flatMap Text.byteHex
  | .date => f.signed.map fun n => (dateText n).toList
  | .dateTime => f.signed.map fun n => (dateTimeText n).toList
  | .time => f.signed.map fun n => (timeText n).toList
  | .timestamp => do
    let text ← timestampText (← f.signed)
    return text.toList
  | .year => f.year.map fun n => (yearText n).toList

/-- Appends the value to a text, in quotes where the style asks for them. A value that cannot
be read leaves the opening quote behind. -/
def appendText (f : Field) (q : Quote) (sink : String) : Except Fault Unit × String :=
  if f.isNull then (.ok (), sink ++ "NULL")
  else
    let around := q.around f.type.type
    match f.valueText q with
    | .ok text => (.ok (), sink ++ String.ofList (around ++ text ++ around))
    | .error e => (.error e, sink ++ String.ofList around)

end Field

end GroupedTables.Record
