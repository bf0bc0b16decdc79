import GroupedTables.Catalog.Entities
import GroupedTables.Fault.Basic
import GroupedTables.OrderedMap

/-!
# Where rows come from

The rows of a stored table are kept under its id; the rows of a virtual one are made up on
demand by whatever was registered for it.
-/

namespace GroupedTables.Record

abbrev RowBytes := List UInt8

structure StoredRows where
  byTable : OrderedMap (List RowBytes) := .empty

namespace StoredRows

/-- The rows stored for a table id, whether or not there is such a table. -/
def rows (s : StoredRows) (table : TableId) : List RowBytes := (s.byTable.get? table).getD []

def insert (s : StoredRows) (table : TableId) (record : RowBytes) : StoredRows :=
  ⟨s.byTable.insert table (s.rows table ++ [record])⟩

/-- Removes every row of a table. -/
def truncate (s : StoredRows) (table : TableId) : StoredRows := ⟨s.byTable.erase table⟩

/-- The number of rows stored for a table id. -/
def count (s : StoredRows) (table : TableId) : Nat := (s.rows table).length

@[simp] theorem rows_insert (s : StoredRows) (table other : TableId) (record : RowBytes) :
    (s.insert table record).rows other =
      if other = table then s.rows table ++ [record] else s.rows other := by
  unfold insert rows
  rw [OrderedMap.get?_insert]
  split <;> simp

@[simp] theorem rows_truncate (s : StoredRows) (table other : TableId) :
    (s.truncate table).rows other = if other = table then [] else s.rows other := by
  unfold truncate rows
  rw [OrderedMap.get?_erase]
  split <;> simp

end StoredRows

abbrev RowFactory := Table → Except Fault (List RowBytes)

structure VirtualRows where
  byTable : OrderedMap RowFactory := .empty

namespace VirtualRows

/-- Has the rows of a table made up by a factory from now on. -/
def register (v : VirtualRows) (table : TableId) (factory : RowFactory) : VirtualRows :=
  ⟨v.byTable.insert table factory⟩

/-- The rows of a table, if a factory is registered for it. -/
def rows (v : VirtualRows) (table : Table) : Except Fault (List RowBytes) :=
  match v.byTable.get? table.id with
  | some factory => factory table
  | none => .error (.noSuchTable table.name.schema table.name.name)

end VirtualRows

/-- The name of the source the rows of a table come from. -/
def sourceName (table : Table) : String := if table.isVirtual then "virtual" else "memory"

structure RowSources where
  stored : StoredRows := {}
  virtualRows : VirtualRows := {}

namespace RowSources

def rows (s : RowSources) (table : Table) : Except Fault (List RowBytes) :=
  if table.isVirtual then s.virtualRows.rows table else .ok (s.stored.rows table.id)

end RowSources

end GroupedTables.Record
