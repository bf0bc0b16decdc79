/-!
# Column types

The types a column can have, the families they fall into, and the storage of those whose
width does not depend on a declaration.
-/

namespace GroupedTables

/-- The type of a column, without its declared attributes. -/
inductive DataType where
  | tinyInt
  | smallInt
  | mediumInt
  | int
  | bigInt
  | float
  | double
  /-- A decimal of fixed precision and scale, packed. -/
  | decimal
  | char
  | varchar
  | text
  | binary
  | varBinary
  | blob
  /-- Three bytes, `year * 512 + month * 32 + day`. -/
  | date
  /-- Eight bytes, `YYYYMMDDHHMMSS`. -/
  | dateTime
  /-- Three bytes with sign, `HHMMSS`. -/
  | time
  /-- Four bytes, seconds since 1970. -/
  | timestamp
  /-- One byte, years since 1900. -/
  | year
  deriving Repr, DecidableEq, Inhabited

namespace DataType

def all : List DataType := [
  tinyInt, smallInt, mediumInt, int, bigInt, float, double, decimal, char, varchar, text,
  binary, varBinary, blob, date, dateTime, time, timestamp, year]

theorem mem_all (t : DataType) : t ∈ all := by cases t <;> decide

def keyword : DataType → String
  | tinyInt => "TINYINT"
  | smallInt => "SMALLINT"
  | mediumInt => "MEDIUMINT"
  | int => "INT"
  | bigInt => "BIGINT"
  | float => "FLOAT"
  | double => "DOUBLE"
  | decimal => "DECIMAL"
  | char => "CHAR"
  | varchar => "VARCHAR"
  | text => "TEXT"
  | binary => "BINARY"
  | varBinary => "VARBINARY"
  | blob => "BLOB"
  | date => "DATE"
  | dateTime => "DATETIME"
  | time => "TIME"
  | timestamp => "TIMESTAMP"
  | year => "YEAR"

def storedName : DataType → String
  | tinyInt => "TinyInt"
  | smallInt => "SmallInt"
  | mediumInt => "MediumInt"
  | int => "Int"
  | bigInt => "BigInt"
  | float => "Float"
  | double => "Double"
  | decimal => "Decimal"
  | char => "Char"
  | varchar => "Varchar"
  | text => "Text"
  | binary => "Binary"
  | varBinary => "VarBinary"
  | blob => "Blob"
  | date => "Date"
  | dateTime => "DateTime"
  | time => "Time"
  | timestamp => "Timestamp"
  | year => "Year"

def ofStoredName? (name : String) : Option DataType := all.find? fun t => t.storedName == name

theorem ofStoredName?_storedName (t : DataType) : ofStoredName? t.storedName = some t := by
  cases t <;> decide

def isInteger : DataType → Bool
  | tinyInt | smallInt | mediumInt | int | bigInt => true
  | _ => false

def isFloating : DataType → Bool
  | float | double => true
  | _ => false

def isDecimal : DataType → Bool
  | decimal => true
  | _ => false

def isNumber (t : DataType) : Bool := t.isInteger || t.isFloating || t.isDecimal

def isText : DataType → Bool
  | char | varchar | text => true
  | _ => false

def isBinary : DataType → Bool
  | binary | varBinary | blob => true
  | _ => false

def isTemporal : DataType → Bool
  | date | dateTime | time | timestamp | year => true
  | _ => false

/-- Whether values are stored behind their length. -/
def isVariableWidth (t : DataType) : Bool := t.isText || t.isBinary

/-- Bytes of a value, for the types that settle it alone. -/
def fixedWidth? : DataType → Option Nat
  | tinyInt | year => some 1
  | smallInt => some 2
  | mediumInt | date | time => some 3
  | int | float | timestamp => some 4
  | bigInt | double | dateTime => some 8
  | decimal | char | varchar | text | binary | varBinary | blob => none

/-- Fixed widths are those of an integer of up to eight bytes. -/
theorem fixedWidth?_bounds {t : DataType} {w : Nat} (h : t.fixedWidth? = some w) :
    1 ≤ w ∧ w ≤ 8 := by
  cases t <;> simp [fixedWidth?] at h <;> omega

def integerBits? : DataType → Option Nat
  | tinyInt => some 8
  | smallInt => some 16
  | mediumInt => some 24
  | int => some 32
  | bigInt => some 64
  | _ => none

end DataType

/-- Whether a number column holds values below zero. -/
inductive Signedness where
  | signed
  | unsigned
  deriving Repr, DecidableEq, Inhabited

namespace Signedness

def storedName : Signedness → String
  | signed => "Signed"
  | unsigned => "Unsigned"

def ofStoredName? (name : String) : Option Signedness :=
  [signed, unsigned].find? fun s => s.storedName == name

end Signedness

end GroupedTables
