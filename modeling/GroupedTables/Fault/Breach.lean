/-!
# Broken invariants

What is wrong with a catalog whose parts do not fit together. No sequence of edits leads
there, but a catalog can be read from text or edited directly, and then the first part
that does not fit is named here.
-/

namespace GroupedTables

/-- A part of a catalog that does not fit the others. -/
inductive Breach where
  | missingTable (id : Nat)
  | missingJoin (id : Nat)
  | missingGroup (id : Nat)
  | missingSequence (id : Nat)
  | misplacedColumn (column table : String) (position expected : Nat)
  /-- The parent join of a table has another table as its child. -/
  | strayParentJoin (join : Nat) (table : String)
  /-- A table and its parent are in different groups. -/
  | partedFromParent (table parent : String)
  /-- A join whose child names another join as its parent join. -/
  | strayJoin (join : Nat)
  deriving Repr, DecidableEq

namespace Breach

def message : Breach → String
  | missingTable id => s!"table {id} is not in the catalog"
  | missingJoin id => s!"join {id} is not in the catalog"
  | missingGroup id => s!"group {id} is not in the catalog"
  | missingSequence id => s!"sequence {id} is not in the catalog"
  | misplacedColumn column table position expected =>
    s!"column {column} of {table} has position {position}, expected {expected}"
  | strayParentJoin join table => s!"join {join} does not point back to {table}"
  | partedFromParent table parent => s!"{table} is not in the group of its parent {parent}"
  | strayJoin join => s!"join {join} is not the parent join of its child"

end Breach

end GroupedTables
