import GroupedTables.Catalog.Definition
import GroupedTables.Catalog.Joining

/-!
# Adding, renaming and removing tables

No two tables have one name. A table that is removed leaves its children as roots and takes
along what only it needed: its groups, and the sequences no other table draws from.
-/

namespace GroupedTables.Catalog

def addTable [Numbering] (name : TableName) : Edit TableId := do
  requireUnused name
  let id ← allocateId
  putTable { id, name }
  return id

/-- Adds a table with the columns and indexes of a definition, joined to nothing. -/
def createTable [Numbering] (definition : Table) : Edit TableId := do
  requireUnused definition.name
  let id ← allocateId
  putTable { definition with id, parentJoin := none, group := none }.renumbered
  return id

def renameTable (id : TableId) (name : TableName) : Edit Unit := do
  if let some holder := (← get).tableNamed? name then
    if holder.id != id then
      throw (.duplicateTable name.text)
  editTable id ({ · with name })

/-- The sequences of a table that no table of the catalog draws from. -/
def orphanedSequences (c : Catalog) (t : Table) : List SequenceId :=
  (t.columns.filterMap (·.identity)).filter fun id => !c.usesSequence id

def removeTable (id : TableId) : Edit Table := do
  let c ← get
  let _ ← c.table id
  (c.children id).forM fun child => discard (clearParentJoin child)
  if (← (← get).table id).parentJoin.isSome then
    discard (clearParentJoin id)
  let t ← (← get).table id
  modify fun c => { c with tables := c.tables.erase id }
  modify fun c =>
    { c with
      sequences := (c.orphanedSequences t).foldl OrderedMap.erase c.sequences
      groups := c.groups.filter fun _ group => group.root != id }
  return t

end GroupedTables.Catalog
