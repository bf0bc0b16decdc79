import GroupedTables.DataType.Basic
import GroupedTables.Record.Charset

/-!
# Quotes around values

A style of quoting settles two things: which values get quotes around them, and which
character is doubled inside. Both are needed for a value to end where its text ends.
-/

namespace GroupedTables

inductive Quote where
  | none
  | single
  | double
  deriving Repr, DecidableEq, Inhabited

namespace Quote

def mark? : Quote → Option Char
  | none => Option.none
  | single => some '\''
  | double => some '"'

/-- Whether values of a type are put in quotes: texts, bytes, dates and times are. -/
def appliesTo (q : Quote) (type : DataType) : Bool :=
  q.mark?.isSome && (type.isText || type.isBinary || type.isTemporal)

/-- What opens and closes a value of a type. -/
def around (q : Quote) (type : DataType) : List Char :=
  if q.appliesTo type then q.mark?.toList else []

/-- A text with every quote character of the style doubled. -/
def escape (q : Quote) (cs : List Char) : List Char :=
  match q.mark? with
  | Option.none => cs
  | some mark => cs.flatMap fun c => if c = mark then [mark, c] else [c]

def escapeBytes (q : Quote) (bytes : List UInt8) (charset : Charset) :
    Except CodingError (List Char) :=
  (charset.decode bytes).map fun text => q.escape text.toList

@[simp] theorem escape_none (cs : List Char) : escape .none cs = cs := rfl

@[simp] theorem escape_nil (q : Quote) : q.escape [] = [] := by cases q <;> rfl

end Quote

end GroupedTables
