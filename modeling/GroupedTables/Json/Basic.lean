/-!
# JSON values

The values that a stored catalog, a configuration and a diagnostic are written as.
Members keep their order and their repetitions, because a reader of maps lets the
last of two equal keys win while a reader of records refuses them. A key remembers
whether it was spelled with escapes: a record does not care, but an id as a key of a
map is read digit by digit. Whole numbers are kept apart from all other numbers: no
stored field is a fraction, so a number with a point, an exponent or a negative zero
only has to be recognised and passed over.
-/

namespace GroupedTables

structure Json.Key where
  /-- What the key says, with every escape resolved. -/
  text : String
  /-- Whether the key was spelled with an escape. -/
  escaped : Bool := false
  deriving Repr, DecidableEq, Inhabited

/-- A text is a key that is spelled as it stands. -/
instance : Coe String Json.Key := ⟨fun text => { text }⟩

inductive Json where
  | null
  | bool (value : Bool)
  | int (value : Int)
  /-- A number that is not a whole number, by its spelling. -/
  | real (lexeme : String)
  | string (text : String)
  /-- A text, or an object with a key, whose escapes name half a surrogate pair. It can be
  passed over but not read. -/
  | unreadable
  | array (items : List Json)
  | object (members : List (Json.Key × Json))
  deriving Repr, Inhabited

namespace Json

def nat (n : Nat) : Json := .int n

/-- `null` in place of a value that is absent. -/
def optional (write : α → Json) : Option α → Json
  | none => .null
  | some a => write a

def list (write : α → Json) (items : List α) : Json := .array (items.map write)

@[simp] theorem optional_none (write : α → Json) : optional write none = .null := rfl

@[simp] theorem optional_some (write : α → Json) (a : α) :
    optional write (some a) = write a := rfl

end Json

end GroupedTables
