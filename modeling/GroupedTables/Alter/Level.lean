import GroupedTables.Alter.Change
import GroupedTables.Catalog.Tree

/-!
# What an alteration costs

An alteration touches the catalog alone, or indexes, or every row. The cost is found by
comparing the table as it is with the table as it is to be, with the change lists telling
which column and which index is which; the most expensive difference decides.
-/

namespace GroupedTables

inductive Level where
  /-- Nothing but the catalog changes. -/
  | metadata
  /-- Indexes are built anew, and rows stay as they are. -/
  | index
  /-- Every row is written anew. -/
  | table
  deriving Repr, DecidableEq, Inhabited

namespace Level

def text : Level → String
  | metadata => "METADATA"
  | index => "INDEX"
  | table => "TABLE"

/-- The place of a level in the order of cost. -/
def rank : Level → Nat
  | metadata => 0
  | index => 1
  | table => 2

def join (a b : Level) : Level := if a.rank < b.rank then b else a

def joinAll (levels : List Level) : Level := levels.foldl join metadata

theorem rank_join (a b : Level) : (a.join b).rank = max a.rank b.rank := by
  cases a <;> cases b <;> rfl

/-- A level if something holds, and nothing to do otherwise. -/
def onlyIf (condition : Bool) (level : Level) : Level := if condition then level else metadata

end Level

/-- A table as it is to be, in a catalog that also holds the group it is to be in. -/
structure Staged where
  catalog : Catalog
  table : TableId

namespace Staged

def definition (s : Staged) : Except Fault Table := s.catalog.table s.table

end Staged

namespace Level

def checkColumnChange (before after : Table) (change : Change) : Except Fault Unit := do
  if let some missing := before.missingColumn? change.oldName?.toList then
    throw (.noSuchColumn missing)
  if let some missing := after.missingColumn? change.newName?.toList then
    throw (.noSuchColumn missing)

/-- Checks that an index change names an index that is there: the new one of an addition, the
old one of any other. -/
def checkIndexChange (before after : Table) (change : Change) : Except Fault Unit :=
  let side := if change.isAdd then after else before
  if (side.index? change.name).isSome then .ok ()
  else .error (.noSuchIndex side.name.text change.name)

/-- Whether rows have to be written anew for a column: its type is another one, or null is no
longer allowed. -/
def rebuildsRow (before after : Column) : Bool :=
  before.descriptor != after.descriptor || (before.nullable && !after.nullable)

/-- Whether no number is below the one before it. -/
def ascending : List Nat → Bool
  | a :: b :: rest => a ≤ b && ascending (b :: rest)
  | _ => true

def former? (before : Table) (changes : List Change) (column : Column) : Option Column :=
  (Change.formerName? changes column.name).bind before.column?

/-- Whether the rows of a table are rows of the other: every column is still there, none is
new, none has to be written anew, and all are in the same order. -/
def keepsRows (before after : Table) (changes : List Change) : Bool :=
  (before.columns.all fun c => (Change.finalName? changes c.name).isSome) &&
    match after.columns.mapM (former? before changes) with
    | none => false
    | some former =>
      ((former.zip after.columns).all fun (old, new) => !rebuildsRow old new) &&
        ascending (former.map (·.position))

def ofColumns (before after : Table) (changes : List Change) : Level :=
  onlyIf (!keepsRows before after changes) table

def isPrimary (t : Table) (name : String) : Bool := (t.index? name).any (·.primary)

/-- What an index costs that has to be built: rows are kept in the order of the primary key. -/
def ofBuilding (primary : Bool) : Level := if primary then table else index

def ofIndexChange (before after : Table) (change : Change) : Level :=
  ofBuilding <| (change.oldName?.toList ++ change.newName?.toList).any fun name =>
    isPrimary before name || isPrimary after name

/-- Whether an index is the same but for the renaming of columns. -/
def sameIndex (before after : Index) (columnChanges : List Change) : Bool :=
  before.unique == after.unique && before.primary == after.primary &&
    before.columns.length == after.columns.length &&
    (before.columns.zip after.columns).all fun (old, new) =>
      old.ascending == new.ascending &&
        Change.finalName? columnChanges old.column == some new.column

/-- What an index costs that is there in the end and that no change has as its new name. -/
def ofRemaining (before : Table) (columnChanges indexChanges : List Change) (i : Index) : Level :=
  let listed := indexChanges.any fun c => c.newName? == some i.name
  let unchanged := (before.index? i.name).any fun old => sameIndex old i columnChanges
  onlyIf (!listed && !unchanged) (ofBuilding i.primary)

/-- What an index costs that is gone though no change says so. -/
def ofVanished (after : Table) (indexChanges : List Change) (i : Index) : Level :=
  let listed := (Change.ofOldName? indexChanges i.name).isSome
  onlyIf (!listed && (after.index? i.name).isNone) (ofBuilding i.primary)

def ofIndexes (before after : Table) (columnChanges indexChanges : List Change) : Level :=
  joinAll <|
    indexChanges.map (ofIndexChange before after) ++
      after.indexes.map (ofRemaining before columnChanges indexChanges) ++
      before.indexes.map (ofVanished after indexChanges)

/-- Whether two parent joins are the same but for the renaming of the child's columns. -/
def sameJoin (columnChanges : List Change) : Option Join → Option Join → Bool
  | none, none => true
  | some old, some new =>
    old.parent == new.parent && old.columns.length == new.columns.length &&
      (old.columns.zip new.columns).all fun (o, n) =>
        o.parent == n.parent && Change.finalName? columnChanges o.child == some n.child
  | _, _ => false

/-- What it costs to change the parent: rows are kept with those of the parent. -/
def ofGrouping (live : Catalog) (before : Table) (target : Staged) (columnChanges : List Change) :
    Except Fault Level := do
  let old ← live.parentJoin before.id
  let new ← target.catalog.parentJoin target.table
  return onlyIf (!sameJoin columnChanges old new) table

/-- What it costs to make a table of a catalog what it is to be. -/
def classify (live : Catalog) (id : TableId) (target : Staged)
    (columnChanges indexChanges : List Change) : Except Fault Level := do
  let before ← live.table id
  let after ← target.definition
  columnChanges.forM (checkColumnChange before after)
  indexChanges.forM (checkIndexChange before after)
  let grouping ← ofGrouping live before target columnChanges
  return joinAll [
    ofColumns before after columnChanges,
    ofIndexes before after columnChanges indexChanges,
    grouping]

end Level

end GroupedTables
