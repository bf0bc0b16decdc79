import GroupedTables.Alter.Config
import GroupedTables.Alter.Draft

/-!
# Planning alterations

A statement that asks for statistics, for truncation or for another table name is passed on
at once. Any other is drafted, and the draft goes to the backend together with the lists of
what happens to columns and indexes. Nothing has been done yet when planning fails, and a
statement that was cancelled does not get as far as the backend.
-/

namespace GroupedTables

/-- What is needed to plan a statement: a backend, the settings, and the schema of tables
that are named without one. -/
structure Planner (σ : Type) where
  backend : Backend σ
  config : Config := {}
  schema : String

namespace Planner

variable {σ α : Type}

/-- What goes to the backend: the table as it is to be, and what happens to it. -/
structure Plan where
  staged : Staged
  columnChanges : List Change
  indexChanges : List Change

/-- Drafts the edits of a statement on the table with an id. -/
def draftEdits (p : Planner σ) (live : Catalog) (id : TableId) (current : Table) (e : Edits) :
    Action Draft (List Change) := do
  e.columns.forM (Draft.applyColumnEdit id)
  Draft.onContext Context.checkCancelled
  e.indexChanges.forM fun change => Draft.checkIndexChange current change
  let indexChanges ← current.indexes.foldlM
    (fun changes index => Draft.edit (Draft.keepIndex current.id e.columnChanges changes index))
    e.indexChanges
  let names := IndexNames.ofTable current p.config.indexNameLimit
  let (_, indexChanges) ← e.keys.foldlM
    (fun (names, changes) key => Draft.edit (Draft.addKey current.id names changes key))
    (names, indexChanges)
  e.parents.forM fun parent => Draft.edit (Draft.applyParentEdit live current p.schema parent)
  (← get).catalog.validate
  return indexChanges

/-- Drafts the edits of a statement, from the tree of the table on. -/
def plan (p : Planner σ) (live : Catalog) (id : TableId) (current : Table) (e : Edits) :
    Action Context Plan := do
  Context.checkCancelled
  e.columnChanges.forM fun change => Draft.checkColumnChange current change
  let tree ← live.selectTree id
  let draft : Action Draft (List Change) := do
    Draft.edit (Draft.resetTable current e.columnChanges)
    p.draftEdits live id current e
  let plan ← fun context =>
    match draft ⟨tree, context⟩ with
    | .ok indexChanges d => .ok ⟨⟨d.catalog, id⟩, e.columnChanges, indexChanges⟩ d.context
    | .error f d => .error f d.context
  Context.checkCancelled
  return plan

/-- Carries the elements of a statement about a table out, and tells what it cost. Nothing is
told if they ask for nothing that can be carried out. -/
def alterElements (p : Planner σ) (live : Catalog) (id : TableId) (elements : List Element) :
    Action (Run σ) (Option Level) := do
  let current ← live.table id
  match ← Route.ofElements current elements with
  | .rename newName =>
    Run.onState (p.backend.rename current.name (newName.resolve p.schema))
    return some .metadata
  | .unsupported => return none
  | .edit e =>
    let plan ← Run.onContext (p.plan live id current e)
    return some (← p.backend.alter current.name plan.staged plan.columnChanges plan.indexChanges)

/-- Carries elements out that have to ask for something. -/
def alterWhole (p : Planner σ) (live : Catalog) (id : TableId) (statement : AlterTable)
    (elements : List Element) : Action (Run σ) Level := do
  match ← p.alterElements live id elements with
  | some level => return level
  | none => throw (.unsupported statement.text (some statement.text))

/-- Carries a statement about a table out, and tells what it cost if it altered the table. -/
def alterTable (p : Planner σ) (s : AlterTable) : Action (Run σ) (Option Level) := do
  let live := p.backend.catalog (← get).state
  let name := s.table.resolve p.schema
  let t ← live.tableNamed name
  match s.operation with
  | .statistics none =>
    Run.onState (p.backend.statistics name none)
    return none
  | .statistics (some index) =>
    if (t.index? index).isNone then
      throw (.noSuchIndex name.text index)
    Run.onState (p.backend.statistics name (some [index]))
    return none
  | .truncate cascade =>
    Run.onState (p.backend.truncate t.id cascade)
    return none
  | .elements elements => return some (← p.alterWhole live t.id s elements)

/-- Carries a statement about a group out, and tells what it cost. -/
def alterGroup (p : Planner σ) (s : AlterGroup) : Action (Run σ) Level := do
  let live := p.backend.catalog (← get).state
  let t ← live.tableNamed (s.table.resolve p.schema)
  p.alterWhole live t.id s.alterTable s.elements

end Planner

end GroupedTables
