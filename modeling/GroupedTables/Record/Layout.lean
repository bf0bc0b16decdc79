import GroupedTables.Catalog.Entities
import GroupedTables.Record.Charset
import GroupedTables.Record.Integer

/-!
# Row layouts

A row record is the payloads of its fields, one after the other, and then a footer with the
end offset of each of them in four bytes. A field starts where the one before it ends. A
field without any bytes is null, so a location is a single word: the width of the field
above its offset, and zero for null.
-/

namespace GroupedTables.Record

/-- Bytes of an end offset in the footer. -/
def footerEntrySize : Nat := 4

/-- Where a field lies in a record: its width above its offset in one word of eight bytes.
The offset is not cut to its half of the word. -/
def packLocation (offset width : Nat) : Nat :=
  if width = 0 then 0 else width * UInt32.size % Word.bound ||| offset

def locationOffset (location : Nat) : Nat := location % UInt32.size

def locationWidth (location : Nat) : Nat := location / UInt32.size

structure FieldType where
  descriptor : TypeDescriptor
  /-- The charset of a text, if it declares one. -/
  charset : Option Charset
  deriving Repr, DecidableEq, Inhabited

namespace FieldType

/-- Looks up the charset that a text declares. -/
def ofDescriptor (registry : CharsetRegistry) (d : TypeDescriptor) : Except Fault FieldType :=
  match d.charset with
  | some name =>
    if d.type.isText then
      match registry.resolve name with
      | .ok charset => .ok ⟨d, some charset⟩
      | .error e => .error e.fault
    else .ok ⟨d, none⟩
  | none => .ok ⟨d, none⟩

def textCharset (f : FieldType) : Charset := f.charset.getD .utf8

def type (f : FieldType) : DataType := f.descriptor.type

/-- Bytes of the length in front of the payload. -/
def lengthWidth (f : FieldType) : Nat := f.descriptor.lengthWidth

end FieldType

structure Layout where
  fields : List FieldType
  deriving Repr, DecidableEq, Inhabited

namespace Layout

/-- The layout of rows with these columns, with charsets by the names of a registry. -/
def withRegistry (registry : CharsetRegistry) (descriptors : List TypeDescriptor) :
    Except Fault Layout :=
  (descriptors.mapM (FieldType.ofDescriptor registry)).map Layout.mk

def ofDescriptors (descriptors : List TypeDescriptor) : Except Fault Layout :=
  withRegistry .standard descriptors

def ofTable (table : Table) : Except Fault Layout :=
  ofDescriptors (table.columns.map (·.descriptor))

def size (l : Layout) : Nat := l.fields.length

def footerSize (l : Layout) : Nat := l.size * footerEntrySize

def field (l : Layout) (index : Nat) : Except RowDefect FieldType :=
  match l.fields[index]? with
  | some f => .ok f
  | none => .error (.noSuchField index l.size)

/-- The end offset of a field, from the footer behind so many bytes of data. -/
def endOffset (bytes : List UInt8) (dataSize index : Nat) : Nat :=
  ofLittleEndian (span bytes (dataSize + index * footerEntrySize) footerEntrySize)

def startOffset (bytes : List UInt8) (dataSize : Nat) : Nat → Nat
  | 0 => 0
  | index + 1 => endOffset bytes dataSize index

def location (l : Layout) (bytes : List UInt8) (index : Nat) : Except RowDefect Nat := do
  let _ ← l.field index
  if bytes.length < l.footerSize then
    throw (.shorterThanFooter bytes.length l.footerSize)
  let dataSize := bytes.length - l.footerSize
  let start := startOffset bytes dataSize index
  let stop := endOffset bytes dataSize index
  if stop < start ∨ dataSize < stop then
    throw (.outsideData index start stop dataSize)
  return packLocation start (stop - start)

end Layout

end GroupedTables.Record
