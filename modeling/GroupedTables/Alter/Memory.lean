import GroupedTables.Alter.Planner
import GroupedTables.Alter.Swap
import GroupedTables.Record.Source

/-!
# Tables in memory

A backend that holds a catalog and the rows of its tables, and keeps a journal of what was
done. An action on the catalog is carried out as a whole or not at all, and only what was
carried out is in the journal.
-/

namespace GroupedTables

inductive Event where
  | created (table : TableName)
  | renamed (table newName : TableName)
  | dropped (table : TableName)
  | statistics (table : TableName) (indexes : Option (List String))
  | truncated (table : TableId) (cascade : Bool)
  | altered (table : TableName) (level : Level) (columnChanges indexChanges : List Change)
  deriving Repr, DecidableEq

structure Memory where
  catalog : Catalog := {}
  rows : Record.StoredRows := {}
  journal : List Event := []

namespace Memory

variable {α : Type}

def edit (act : Edit α) : Action Memory α :=
  Action.within catalog (fun c m => { m with catalog := c }) (Action.allOrNothing act)

def record (event : Event) : Action Memory Unit :=
  modify fun m => { m with journal := m.journal ++ [event] }

def editRows (f : Record.StoredRows → Record.StoredRows) : Action Memory Unit :=
  modify fun m => { m with rows := f m.rows }

def createTable [Numbering] (definition : Table) : Action Memory TableId := do
  let id ← edit (Catalog.createTable definition)
  record (.created definition.name)
  return id

def renameNamed (name newName : TableName) : Edit Unit := do
  let t ← (← get).tableNamed name
  Catalog.requireUnused newName
  Catalog.renameTable t.id newName

def renameTable (name newName : TableName) : Action Memory Unit := do
  edit (renameNamed name newName)
  record (.renamed name newName)

/-- Removes the table with a name, and yields its id. -/
def removeNamed [Numbering] (name : TableName) : Edit TableId := do
  let t ← (← get).tableNamed name
  discard (Catalog.removeTable t.id)
  Catalog.regroup
  return t.id

def dropTable [Numbering] (name : TableName) : Action Memory Unit := do
  let id ← edit (removeNamed name)
  editRows (·.truncate id)
  record (.dropped name)

/-- Gathers statistics; there is nothing to gather here. -/
def gatherStatistics (name : TableName) (indexes : Option (List String)) : Action Memory Unit := do
  let _ ← (← get).catalog.tableNamed name
  record (.statistics name indexes)

/-- Removes the rows of a table, and if asked to those of the tables below it. -/
def truncateTable (id : TableId) (cascade : Bool) : Action Memory Unit := do
  let c := (← get).catalog
  let below := if cascade then (c.subtree id).drop 1 else []
  editRows fun rows => (id :: below).foldl Record.StoredRows.truncate rows
  record (.truncated id cascade)

/-- Adds the rows of one table to those of another one. -/
def copyRows : Copier Memory := fun source destination => do
  let m ← get
  let source ← m.catalog.tableNamed source
  let destination ← m.catalog.tableNamed destination
  editRows fun rows =>
    (rows.rows source.id).foldl (fun rows row => rows.insert destination.id row) rows

def tableActions [Numbering] : TableActions Memory where
  create := createTable
  rename := renameTable
  drop := dropTable

/-- The generated columns of a table, with their sequences. -/
def identities (t : Table) : List (String × SequenceId) :=
  t.columns.filterMap fun c => c.identity.map fun s => (c.name, s)

/-- Points a generated column at the sequence it is to draw from: the live one if that is the
same, or else a new one like it. -/
def adoptSequence [Numbering] (table : TableId) (target : Staged) (column : String)
    (id : SequenceId) : Edit Unit := do
  let staged ← target.catalog.sequence id
  if (← get).sequences.get? id == some staged then
    return
  let fresh ← Catalog.addSequence staged
  Catalog.editTable table (·.withColumnChanged column ({ · with identity := some fresh }))

/-- Points every generated column of a table at the sequence it is to draw from. -/
def adoptSequences [Numbering] (table : TableId) (target : Staged) : Edit Unit := do
  (identities (← (← get).table table)).forM fun (column, id) =>
    adoptSequence table target column id

def attachParent [Numbering] (table : TableId) (target : Staged) : Edit Unit := do
  match ← target.catalog.parentJoin target.table with
  | some j => discard (Catalog.addJoin j.parent table j.columns)
  | none => return

/-- Acts on the child of a join if the live catalog has it. -/
def onLiveChild (j : Join) (act : Edit Unit) : Edit Unit := do
  if (← get).tables.contains j.child then
    act

/-- Joins a table to the parent and to the children it is to have. -/
def attachJoins [Numbering] (table : TableId) (target : Staged) : Edit Unit := do
  attachParent table target
  (target.catalog.childJoins target.table).forM fun j =>
    onLiveChild j (discard (Catalog.addJoin table j.child j.columns))

/-- Groups the tables afresh and checks that all fits together. -/
def settle [Numbering] : Edit Unit := do
  Catalog.regroup
  (← get).validate

/-- Removes a sequence that no column draws from any more. -/
def sweepSequence (id : SequenceId) : Edit Unit := do
  if !(← get).usesSequence id then
    discard (Catalog.removeSequence id)

/-- Replaces the definition of a table under its id. -/
def replaceDefinition [Numbering] (table : TableId) (target : Staged) : Edit Unit := do
  let staged ← target.definition
  let previous := (identities (← (← get).table table)).map (·.2)
  ((← get).children table).forM fun child => discard (Catalog.clearParentJoin child)
  discard (Catalog.clearParentJoin table)
  Catalog.editTable table
    ({ · with name := staged.name, columns := staged.columns, indexes := staged.indexes })
  adoptSequences table target
  previous.forM sweepSequence
  attachJoins table target
  settle

/-- Gives a table that takes the place of another one the sequences and the joins it is to
have. -/
def takeOver [Numbering] (table : TableId) (target : Staged) : Edit Unit := do
  adoptSequences table target
  (target.catalog.childJoins target.table).forM fun j =>
    onLiveChild j (discard (Catalog.clearParentJoin j.child))
  attachJoins table target
  settle

/-- Tries a swap out: the outcome on the catalog if all of its steps succeed. -/
def rehearse [Numbering] (config : Config) (name : TableName) (target : Staged) : Edit Unit := do
  let old ← (← get).tableNamed name
  let definition ← target.definition
  let id ← Catalog.createTable
    { definition with name := ⟨name.schema, config.temporaryNew⟩ }
  discard (Catalog.removeTable old.id)
  Catalog.renameTable id name
  Catalog.regroup
  takeOver id target

def check (act : Edit α) : Action Memory Unit := do
  match act (← get).catalog with
  | .ok .. => return
  | .error f _ => throw f

/-- Replaces a table by a new one and swaps the names. Nothing is renamed or dropped unless the
new one can take over. -/
def swapTable [Numbering] (config : Config) (copier : Copier Memory) (name : TableName)
    (target : Staged) : Action Memory Unit := do
  check (rehearse config name target)
  let swap := Swap.ofConfig config name (← target.definition)
  let id ← swap.execute tableActions copier
  edit (takeOver id target)

/-- Makes a table what it is to be, by the way the settings ask for where rows have to be
written anew. -/
def alterTable [Numbering] (config : Config) (copier : Copier Memory) (name : TableName)
    (target : Staged) (columnChanges indexChanges : List Change) : Action (Run Memory) Level := do
  let live := (← get).state.catalog
  let t ← live.tableNamed name
  let level ← Level.classify live t.id target columnChanges indexChanges
  Run.onContext Context.checkCancelled
  Run.onState do
    if config.strategy = .copyAndSwap ∧ level = .table then
      swapTable config copier name target
    else
      edit (replaceDefinition t.id target)
    record (.altered name level columnChanges indexChanges)
  return level

/-- Tables in memory as a backend. Rows are moved by a copier of the caller's choice. -/
def backend [Numbering] (config : Config) (copier : Copier Memory) : Backend Memory where
  toTableActions := tableActions
  catalog := catalog
  alter := alterTable config copier
  statistics := gatherStatistics
  truncate := truncateTable

def alterations (m : Memory) : List Event :=
  m.journal.filter fun
    | .altered .. => true
    | _ => false

end Memory

end GroupedTables
