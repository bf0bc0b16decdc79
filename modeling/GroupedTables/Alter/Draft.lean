import GroupedTables.Alter.Backend
import GroupedTables.Catalog.Outline
import GroupedTables.Alter.Edits
import GroupedTables.Alter.IndexNames
import GroupedTables.Alter.Narrowing
import GroupedTables.Catalog.Selection

/-!
# Drafting an altered table

An alteration is drafted on a catalog of its own, the tree that the table is in. The table
is emptied there and put together again from what it was: first its columns, then its
indexes, then its place in the tree, each with the edits of the statement applied. What the
edits refer to and what they leave behind is checked on the way.

The ids that a draft gives away are none of the catalog it is carried out on, which gives its own.
They are counted without end here: a draft gives one away with an element at most, so they are words
whenever there is room to carry the statement out.
-/

namespace GroupedTables

open scoped Unbounded

/-- A catalog in which an alteration is drafted, in the run of a statement. -/
structure Draft where
  catalog : Catalog
  context : Context

namespace Draft

variable {α : Type}

def edit (act : Edit α) : Action Draft α :=
  Action.within catalog (fun c d => { d with catalog := c }) act

def onContext (act : Action Context α) : Action Draft α :=
  Action.within context (fun c d => { d with context := c }) act

def checkColumnChange (current : Table) (change : Change) : Except Fault Unit :=
  if change.isAdd || (current.column? change.name).isSome then .ok ()
  else .error (.noSuchColumn change.name)

/-- Adds a column of the table as it was under the name it has now, if it is still there. -/
def keepColumn (id : TableId) (changes : List Change) (column : Column) : Edit Unit := do
  match Change.finalName? changes column.name with
  | some name => Catalog.addColumn id { column with name }
  | none => return

/-- Empties the table, puts the columns that stay back in order, and makes the joins follow
their names. -/
def resetTable (current : Table) (changes : List Change) : Edit Unit := do
  discard (Catalog.dropColumns current.id)
  discard (Catalog.removeIndexes current.id)
  current.columns.forM (keepColumn current.id changes)
  discard (Catalog.remapJoinColumns current.id (Change.finalName? changes))

/-- Adds the sequence of a generated column. -/
def createIdentity (table : TableId) (column : String) (identity : Identity) :
    Edit SequenceId := do
  let name := (← (← get).table table).name
  Catalog.addSequence
    (.ofStart name.schema (generatedName name column) identity.start identity.increment)

/-- Adds a new column. A generated one has no default. -/
def addColumn (table : TableId) (d : ColumnDefinition) : Edit Unit := do
  let column : Column :=
    { name := d.name, descriptor := d.descriptor, nullable := d.nullable, default := d.default }
  match d.identity with
  | none => Catalog.addColumn table column
  | some identity =>
    let sequence ← createIdentity table d.name identity
    Catalog.addColumn table { column with identity := some sequence, default := none }

/-- Gives a column another default; a generator goes with its sequence. -/
def setDefault (table : TableId) (column : Column) (default : Option ColumnDefault) :
    Edit Unit := do
  if let some sequence := column.identity then
    discard (Catalog.removeSequence sequence)
  Catalog.editColumn table column.name ({ · with identity := none, default })

/-- Gives a column another type and makes a literal default one of that type. -/
def setType (table : TableId) (column : Column) (descriptor : TypeDescriptor) :
    Action Draft Unit := do
  let default ← match column.default with
    | some (.literal text) =>
      (fun text => some (.literal text)) <$> onContext (Narrowing.literalFor descriptor text)
    | other => pure other
  edit (Catalog.editColumn table column.name ({ · with descriptor, default }))

/-- Changes the generator of a column. An increment is changed by replacing the sequence. -/
def changeIdentity (table : TableId) (tableName : TableName) (column : Column) :
    IdentityChange → Edit Unit
  | .create identity => do
    if column.identity.isSome then
      throw (.alreadyGenerated tableName.text column.name)
    let sequence ← createIdentity table column.name identity
    Catalog.editColumn table column.name ({ · with identity := some sequence, default := none })
  | .setIncrement increment => do
    match column.identity with
    | none => throw (.notGenerated tableName.text column.name)
    | some old =>
      let previous ← Catalog.removeSequence old
      let sequence ← Catalog.addSequence { previous with increment }
      Catalog.editColumn table column.name ({ · with identity := some sequence })
  | .restart _ => throw (.unsupported s!"ALTER COLUMN {column.name} RESTART WITH" none)

def modifyColumn (table : TableId) (name : String) (modification : ColumnModification) :
    Action Draft Unit := do
  let t ← (← get).catalog.table table
  match t.column? name with
  | none => throw (.noSuchColumn name)
  | some column =>
    match modification with
    | .default value => edit (setDefault table column value)
    | .null => edit (Catalog.editColumn table name ({ · with nullable := true }))
    | .notNull => edit (Catalog.editColumn table name ({ · with nullable := false }))
    | .type descriptor => setType table column descriptor
    | .identity change => edit (changeIdentity table t.name column change)

def applyColumnEdit (table : TableId) : ColumnEdit → Action Draft Unit
  | .add definition => edit (addColumn table definition)
  | .modify name modification => modifyColumn table name modification

def checkIndexChange (current : Table) (change : Change) : Except Fault Unit :=
  if change.isAdd || (current.index? change.name).isSome then .ok ()
  else if change.name == Index.primaryName then
    .error (.noSuchIndex current.name.text change.name)
  else .error (.noSuchUnique current.name.text change.name)

/-- The key columns of an index that are still there, by their names now. -/
def keptColumns (changes : List Change) (index : Index) : List IndexColumn :=
  index.columns.filterMap fun c =>
    (Change.finalName? changes c.column).map fun column => { c with column }

/-- Adds an index of the table as it was, less the columns that are gone. That it lost
columns, or is gone with the last of them, is added to the list of changes. -/
def keepIndex (id : TableId) (columnChanges indexChanges : List Change) (index : Index) :
    Edit (List Change) := do
  let listed := Change.ofOldName? indexChanges index.name
  if listed.any (·.isDrop) then
    return indexChanges
  let columns := keptColumns columnChanges index
  if columns.isEmpty then
    return indexChanges ++ [.drop index.name]
  Catalog.addIndex id { index with columns }
  if columns.length != index.columns.length && listed.isNone then
    return indexChanges ++ [.modify index.name index.name]
  return indexChanges

/-- Adds the index of a new constraint, and tells so in the list of changes. -/
def addKey (id : TableId) (names : IndexNames) (indexChanges : List Change) (key : KeyEdit) :
    Edit (IndexNames × List Change) := do
  let (index, names) := match key with
    | .primary columns => (Index.primaryOf columns, names.primary.2)
    | .unique asked columns =>
      let (name, names) := names.name asked columns
      (Index.uniqueOf name columns, names)
  Catalog.addIndex id index
  return (names, indexChanges ++ [.add index.name])

/-- The columns a foreign key refers to: those listed, or the primary key of the parent. -/
def referredColumns (parent : Table) (key : ForeignKey) : List String :=
  if key.parentColumns.isEmpty then
    match parent.primaryKey? with
    | some index => index.columnNames
    | none => []
  else key.parentColumns

/-- Finds the parent of a foreign key, and takes it over from the live catalog if it is not in
the tree of the table. -/
def bringParent (live : Catalog) (current : Table) (name : TableName) : Edit TableId := do
  match (← get).tableNamed? name with
  | some parent => return parent.id
  | none =>
    match live.tableNamed? name with
    | none => throw (.joinToUnknownTable current.name.text name.text)
    | some parent =>
      Catalog.copyTable live parent.id
      return parent.id

/-- Joins the table under the parent that a foreign key refers to. -/
def joinParent (live : Catalog) (current : Table) (schema : String) (key : ForeignKey) :
    Edit Unit := do
  if current.parentJoin.isSome then
    throw (.secondParent current.name.text)
  if (← (← get).parentJoin current.id).isSome then
    throw (.secondParent current.name.text)
  let parentName := key.parent.resolve schema
  let parent ← bringParent live current parentName
  let referred := referredColumns (← (← get).table parent) key
  if referred.length != key.columns.length then
    throw (.joinWidths current.name.text parentName.text key.columns.length referred.length)
  let columns := (referred.zip key.columns).map fun (parent, child) => ⟨parent, child⟩
  Catalog.editTable current.id ({ · with group := none })
  discard (Catalog.addJoin parent current.id columns)

/-- Takes the table off its parent, which it has to have. -/
def leaveParent (current : Table) : Edit Unit := do
  if (← Catalog.clearParentJoin current.id).isNone then
    throw (.noGroupingKey current.name.text)

def applyParentEdit (live : Catalog) (current : Table) (schema : String) :
    ParentEdit → Edit Unit
  | .leave => leaveParent current
  | .join key => joinParent live current schema key

end Draft

end GroupedTables
