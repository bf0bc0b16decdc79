import GroupedTables.Catalog.Basic

/-!
# What tables are made of

Columns are numbered by their place in the table; indexes name columns of their table;
sequences stand on their own and are referred to by the columns that draw from them.
-/

namespace GroupedTables

/-- Applies a function to the first item that passes a test. -/
def modifyFirst (p : α → Bool) (f : α → α) : List α → List α
  | [] => []
  | a :: rest => if p a then f a :: rest else a :: modifyFirst p f rest

namespace Table

/-- Gives each column the position it stands at. -/
def renumbered (t : Table) : Table :=
  { t with columns := t.columns.mapIdx fun position column => { column with position } }

def withColumn (t : Table) (column : Column) : Table :=
  { t with columns := t.columns ++ [{ column with position := t.columns.length }] }

def withoutColumn (t : Table) (name : String) : Table :=
  { t with columns := t.columns.eraseP (·.name == name) }.renumbered

def withColumnChanged (t : Table) (name : String) (f : Column → Column) : Table :=
  { t with columns := modifyFirst (·.name == name) f t.columns }

def withoutIndex (t : Table) (name : String) : Table :=
  { t with indexes := t.indexes.eraseP (·.name == name) }

end Table

namespace Catalog

def addColumn (table : TableId) (column : Column) : Edit Unit := do
  let t ← (← get).table table
  if (t.column? column.name).isSome then
    throw (.duplicateColumn t.name.text column.name)
  editTable table (·.withColumn column)

/-- Removes a column; the ones behind it move up. -/
def dropColumn (table : TableId) (name : String) : Edit Column := do
  let column ← (← get).column table name
  editTable table (·.withoutColumn name)
  return column

def dropColumns (table : TableId) : Edit (List Column) := do
  let t ← (← get).table table
  editTable table ({ · with columns := [] })
  return t.columns

def editColumn (table : TableId) (name : String) (f : Column → Column) : Edit Unit := do
  let _ ← (← get).column table name
  editTable table (·.withColumnChanged name f)

def addIndex (table : TableId) (index : Index) : Edit Unit := do
  let t ← (← get).table table
  if (t.index? index.name).isSome then
    throw (.duplicateIndex t.name.text index.name)
  if let some missing := t.missingColumn? index.columnNames then
    throw (.noSuchColumn missing)
  editTable table fun t => { t with indexes := t.indexes ++ [index] }

def removeIndex (table : TableId) (name : String) : Edit Index := do
  let index ← (← get).index table name
  editTable table (·.withoutIndex name)
  return index

/-- Removes every index of a table, the primary key with them. -/
def removeIndexes (table : TableId) : Edit (List Index) := do
  let t ← (← get).table table
  editTable table ({ · with indexes := [] })
  return t.indexes

/-- Adds a sequence under a fresh id, whatever id it comes with. -/
def addSequence [Numbering] (s : Sequence) : Edit SequenceId := do
  let id ← allocateId
  modify fun c => { c with sequences := c.sequences.insert id { s with id } }
  return id

def removeSequence (id : SequenceId) : Edit Sequence := do
  let s ← (← get).sequence id
  modify fun c => { c with sequences := c.sequences.erase id }
  return s

end Catalog

end GroupedTables
