import GroupedTables.Catalog.Consistency
import GroupedTables.Catalog.Grouping
import GroupedTables.Catalog.Lifecycle

/-!
# Outlines of catalogs

A catalog can be described table by table: its columns, which of them are generated, its
indexes, and the parent it is joined to by name. Building an outline adds all tables before
it joins any, so a table may be joined to one that is described after it.
-/

namespace GroupedTables

structure ColumnOutline where
  column : Column
  /-- Start and increment of the sequence it draws from. -/
  generated : Option (Int × Int) := none

structure TableOutline where
  name : TableName
  columns : List ColumnOutline := []
  indexes : List Index := []
  /-- The parent it is joined to, and the pairs of columns. -/
  parent : Option (TableName × List JoinColumn) := none

/-- The name of the sequence that is made for a column. -/
def generatedName (table : TableName) (column : String) : String := s!"{table.name}_{column}_seq"

namespace TableOutline

/-- Adds a column, after the sequence it draws from. -/
def addColumn (t : TableOutline) (id : TableId) (column : ColumnOutline) : Edit Unit := do
  match column.generated with
  | none => Catalog.addColumn id column.column
  | some (start, increment) =>
    let name := generatedName t.name column.column.name
    let identity ← Catalog.addSequence (.ofStart t.name.schema name start increment)
    Catalog.addColumn id { column.column with identity }

def add (t : TableOutline) : Edit TableId := do
  let id ← Catalog.addTable t.name
  t.columns.forM (t.addColumn id)
  t.indexes.forM (Catalog.addIndex id)
  return id

def join (t : TableOutline) (id : TableId) : Edit Unit := do
  match t.parent with
  | none => return
  | some (name, columns) =>
    let parent ← (← get).tableNamed name
    discard (Catalog.addJoin parent.id id columns)

end TableOutline

structure Outline where
  /-- The schema of tables that name none. -/
  schema : String
  tables : List TableOutline := []

namespace Outline

/-- The name of the table that a description without any table is about. -/
def unnamed : String := "t"

def withTable (o : Outline) (name : TableName) : Outline :=
  { o with tables := o.tables ++ [{ name }] }

def describe (o : Outline) (f : TableOutline → TableOutline) : Outline :=
  match o.tables.getLast? with
  | some t => { o with tables := o.tables.dropLast ++ [f t] }
  | none => { o with tables := [f { name := ⟨o.schema, unnamed⟩ }] }

def withColumn (o : Outline) (column : ColumnOutline) : Outline :=
  o.describe fun t => { t with columns := t.columns ++ [column] }

def withIndex (o : Outline) (index : Index) : Outline :=
  o.describe fun t => { t with indexes := t.indexes ++ [index] }

/-- Joins the latest table to a parent in the schema of the outline. -/
def joinedTo (o : Outline) (parent : String) (columns : List JoinColumn) : Outline :=
  o.describe fun t => { t with parent := some (⟨o.schema, parent⟩, columns) }

def addAll (o : Outline) : Edit Unit := do
  let ids ← o.tables.mapM TableOutline.add
  (o.tables.zip ids).forM fun (t, id) => t.join id
  Catalog.regroup
  (← get).validate

def build (o : Outline) : Except Fault Catalog :=
  match o.addAll .empty with
  | .ok () c => .ok c
  | .error f _ => .error f

end Outline

end GroupedTables
