import GroupedTables.Catalog.Joining

/-!
# Consistent catalogs

The check that the parts of a catalog fit together. It looks at one table and one join at a
time; that trees are trees follows from these local conditions.
-/

namespace GroupedTables.Catalog

/-- Fails with a breach unless a condition holds. -/
def ensure (condition : Bool) (breach : Breach) : Except Fault Unit :=
  if condition then .ok () else .error (.internal breach)

/-- Checks that a column has its own position and an existing sequence. -/
def checkColumn (c : Catalog) (t : Table) (expected : Nat) (column : Column) :
    Except Fault Unit := do
  ensure (column.position == expected)
    (.misplacedColumn column.name t.name.text column.position expected)
  column.identity.toList.forM fun id => discard (c.sequence id)

def checkColumns (c : Catalog) (t : Table) : Nat → List Column → Except Fault Unit
  | _, [] => .ok ()
  | position, column :: rest => do
    c.checkColumn t position column
    c.checkColumns t (position + 1) rest

/-- Checks that an index names columns of its table. -/
def checkIndex (t : Table) (index : Index) : Except Fault Unit :=
  match t.missingColumn? index.columnNames with
  | some missing => .error (.noSuchColumn missing)
  | none => .ok ()

/-- Checks that the parent join of a table leads from it to a table of the same group. -/
def checkParentJoin (c : Catalog) (t : Table) (id : JoinId) : Except Fault Unit := do
  let j ← c.join id
  ensure (j.child == t.id) (.strayParentJoin j.id t.name.text)
  let parent ← c.table j.parent
  ensure (parent.group == t.group) (.partedFromParent t.name.text parent.name.text)

def checkTable (c : Catalog) (t : Table) : Except Fault Unit := do
  c.checkColumns t 0 t.columns
  t.indexes.forM (checkIndex t)
  t.parentJoin.toList.forM (c.checkParentJoin t)
  discard (c.rootOf t.id)

/-- Checks that a join is the parent join of its child and pairs columns that fit. -/
def checkJoined (c : Catalog) (j : Join) : Except Fault Unit := do
  let child ← c.table j.child
  ensure (child.parentJoin == some j.id) (.strayJoin j.id)
  let parent ← c.table j.parent
  j.columns.forM (checkPair parent child)

/-- Checks that the parts of a catalog fit together. -/
def validate (c : Catalog) : Except Fault Unit := do
  c.tables.values.forM c.checkTable
  c.joins.values.forM c.checkJoined

end GroupedTables.Catalog
