import GroupedTables.Catalog.Basic

/-!
# The tables above and below a table

Joins hang tables under tables. Downwards they are followed from parent to child, upwards
from a table to the join it names as its parent join. In a consistent catalog both ways
tell of the same trees; a catalog that was read from text may name tables that are not
there or go round in a circle, and both walks still end.
-/

namespace GroupedTables.Catalog

def parentJoin (c : Catalog) (table : TableId) : Except Fault (Option Join) := do
  match (← c.table table).parentJoin with
  | none => return none
  | some id => return some (← c.join id)

def childJoins (c : Catalog) (table : TableId) : List Join :=
  c.joins.values.filter fun j => j.parent == table

/-- The tables right below a table. -/
def children (c : Catalog) (table : TableId) : List TableId := (c.childJoins table).map (·.child)

/-- Adds tables to a list of tables, each one only once. -/
def listOnce (listed : List TableId) (tables : List TableId) : List TableId :=
  tables.foldl (fun listed t => if listed.contains t then listed else listed ++ [t]) listed

/-- Goes through listed tables in order and puts the tables below each at the end of the
list. The ones that were gone through come first. -/
def walkDown (c : Catalog) : Nat → List TableId → List TableId → List TableId
  | _, done, [] => done
  | 0, done, pending => done ++ pending
  | steps + 1, done, table :: pending =>
    let listed := listOnce (done ++ table :: pending) (c.children table)
    walkDown c steps (done ++ [table]) (listed.drop (done.length + 1))

/-- A table and every table below it, parents before children. No more tables are listed
than there are joins to find them by, and the one to start with. -/
def subtree (c : Catalog) (table : TableId) : List TableId :=
  walkDown c (c.joins.size + 1) [] [table]

/-- The table right above a table. -/
def parent (c : Catalog) (table : TableId) : Except Fault (Option TableId) := do
  return (← c.parentJoin table).map (·.parent)

/-- Goes up from a table so many times and one time more. A walk that has not reached a root
then has seen a table twice. -/
def climb (c : Catalog) (start : TableId) : Nat → TableId → Except Fault TableId
  | steps, table => do
    match ← c.parent table with
    | none => return table
    | some above =>
      match steps with
      | 0 => throw (.joinCycle (← c.table start).name.text (← c.table above).name.text)
      | steps + 1 => climb c start steps above

def rootOf (c : Catalog) (table : TableId) : Except Fault TableId :=
  climb c table c.tables.size table

end GroupedTables.Catalog
