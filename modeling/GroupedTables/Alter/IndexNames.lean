import GroupedTables.Catalog.Entities
import GroupedTables.Text.Digits

/-!
# Names for constraints without one

A constraint that is given no name is named after its first column, with a number behind it
if that name is taken. The name of the primary key is never made up.
-/

namespace GroupedTables

/-- The names that are taken on a table, and how long a made-up name may be. -/
structure IndexNames where
  taken : List String
  limit : Nat

namespace IndexNames

/-- The names of the indexes of a table. A made-up name has at least one character. -/
def ofTable (t : Table) (limit : Nat) : IndexNames :=
  { taken := t.indexes.map (·.name), limit := max limit 1 }

/-- What a name is made from if there is no column. -/
def nameless : String := "index"

/-- The start of a name that leaves room for so many characters, but has one in any case. -/
def cut (n : IndexNames) (name : String) (room : Nat) : String :=
  String.ofList (name.toList.take (max (n.limit - room) 1))

def numbered (n : IndexNames) (base : String) (number : Nat) : String :=
  let suffix := '_' :: Text.digits number
  n.cut base suffix.length ++ String.ofList suffix

/-- A name that is not taken. Numbered names differ from each other, so one more of them than
there are names taken is enough. -/
def unused (n : IndexNames) (base : String) : String :=
  let base := n.cut base 0
  if !n.taken.contains base && base != Index.primaryName then base
  else
    let candidates := (List.range (n.taken.length + 1)).map fun i => n.numbered base (i + 2)
    (candidates.find? fun candidate => !n.taken.contains candidate).getD ""

def take (n : IndexNames) (name : String) : String × IndexNames :=
  (name, { n with taken := name :: n.taken })

/-- Takes the name that was asked for, or one made up from the columns. -/
def name (n : IndexNames) (asked : Option String) (columns : List String) : String × IndexNames :=
  n.take (asked.getD (n.unused (columns.headD nameless)))

def primary (n : IndexNames) : String × IndexNames := n.take Index.primaryName

end IndexNames

end GroupedTables
