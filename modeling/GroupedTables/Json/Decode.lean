import GroupedTables.Json.Basic
import GroupedTables.Word

/-!
# Decoding JSON into data

A record is read from an object, passing over members it does not know, or from an array
with exactly one item per field. A field of a record may not be given twice. A choice is
read from its bare name, or from an object with the name as its only key.
-/

namespace GroupedTables.Json

def string? : Json → Option String
  | .string s => some s
  | _ => none

/-- The truth value of a JSON truth value. -/
def bool? : Json → Option Bool
  | .bool b => some b
  | _ => none

/-- A whole number from zero up to but not including the bound. -/
def below? (bound : Nat) : Json → Option Nat
  | .int (.ofNat n) => if n < bound then some n else none
  | _ => none

/-- An unsigned number of eight bytes. -/
def word? : Json → Option Nat := below? Word.bound

/-- A signed number of eight bytes. -/
def signedWord? : Json → Option Int
  | .int n => if Word.holds n then some n else none
  | _ => none

/-- `null`, or a value. -/
def nullable? (read : Json → Option α) : Json → Option (Option α)
  | .null => some none
  | v => (read v).map some

def list? (read : Json → Option α) : Json → Option (List α)
  | .array items => items.mapM read
  | _ => none

abbrev Fields := List (String × Json)

/-- The fields of the record with these names: the known members of an object, none of them
twice, or the items of an array of just that length. -/
def record? (names : List String) : Json → Option Fields
  | .object members =>
    let fields := members.map fun m => (m.1.text, m.2)
    let known := fields.filter fun f => names.contains f.1
    if (known.map Prod.fst).Nodup then some known else none
  | .array items => if items.length = names.length then some (names.zip items) else none
  | _ => none

namespace Fields

def required (fields : Fields) (name : String) (read : Json → Option α) : Option α :=
  (fields.lookup name).bind read

/-- A field that may be missing, which means the same as `null`. -/
def absentOr (fields : Fields) (name : String) (read : Json → Option α) : Option (Option α) :=
  match fields.lookup name with
  | none => some none
  | some v => nullable? read v

end Fields

def choice? : Json → Option (String × Option Json)
  | .string name => some (name, none)
  | .object [(name, v)] => some (name.text, some v)
  | _ => none

/-- A choice that carries nothing, looked up by name. -/
def plainChoice? (find : String → Option α) (v : Json) : Option α :=
  match choice? v with
  | some (name, none) => find name
  | some (name, some .null) => find name
  | _ => none

end GroupedTables.Json
