import GroupedTables.Catalog.Tree

/-!
# Parts of catalogs

A part of a catalog keeps the ids of the whole and its counter, so that what is added to the
part can be told apart from everything in the whole.
-/

namespace GroupedTables.Catalog

/-- Takes over the group of a table and the sequences of its columns, where they exist. -/
def withDependencies (c whole : Catalog) (t : Table) : Catalog :=
  let groups := t.group.toList.filterMap whole.groups.get?
  let sequences := (t.columns.filterMap (·.identity)).filterMap whole.sequences.get?
  { c with
    groups := groups.foldl (fun m g => m.insertNew g.id g) c.groups
    sequences := sequences.foldl (fun m s => m.insertNew s.id s) c.sequences }

/-- The tables that pass a test, with the joins between them, their groups and the sequences
of their columns. A table whose parent is not taken along becomes a root. -/
def select (whole : Catalog) (p : Table → Bool) : Catalog :=
  let tables := OrderedMap.ofList ((whole.tables.values.filter p).map fun t => (t.id, t))
  let within := whole.joins.values.filter fun j =>
    tables.contains j.parent && tables.contains j.child
  let joins := OrderedMap.ofList (within.map fun j => (j.id, j))
  let tables := tables.map fun _ t =>
    { t with parentJoin := t.parentJoin.filter joins.contains }
  tables.values.foldl (·.withDependencies whole) { tables, joins, nextId := whole.nextId }

def hasRoot (c : Catalog) (root : TableId) (t : Table) : Bool :=
  match c.rootOf t.id with
  | .ok r => r == root
  | .error _ => false

/-- The part with all tables of the tree that a table is in. -/
def selectTree (c : Catalog) (table : TableId) : Except Fault Catalog := do
  return c.select (c.hasRoot (← c.rootOf table))

/-- Takes over a table of another catalog under its id, joined to nothing. -/
def copyTable (other : Catalog) (id : TableId) : Edit Unit := do
  let t ← other.table id
  let c ← get
  if c.tables.contains id || (c.tableNamed? t.name).isSome then
    throw (.duplicateTable t.name.text)
  let t := { t with parentJoin := none }
  set (withDependencies
    { c with tables := c.tables.insert id t, nextId := max c.nextId other.nextId } other t)

end GroupedTables.Catalog
