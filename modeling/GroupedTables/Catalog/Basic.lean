import GroupedTables.Catalog.Entities
import GroupedTables.Fault.Action
import GroupedTables.OrderedMap

/-!
# Catalogs

A catalog holds tables, joins, groups and sequences by id and numbers all of them from one
counter, so an id does not name two things until the counter runs out of words and starts again.
Looking something up by id fails with a broken invariant, looking it up by name with a fault of
whoever gave the name.

Edits act on a catalog. Everything they change goes through the few edits defined here.
-/

namespace GroupedTables

/-- Tables, joins, groups and sequences by id. -/
structure Catalog where
  tables : OrderedMap Table := .empty
  joins : OrderedMap Join := .empty
  groups : OrderedMap Group := .empty
  sequences : OrderedMap Sequence := .empty
  /-- The last id that was given away. -/
  nextId : Nat := 0
  deriving DecidableEq, Inhabited

/-- Changes a catalog, and yields a value or fails. -/
abbrev Edit := Action Catalog

/-- How ids are counted: which one follows the last that was given away. -/
class Numbering where
  next : Nat → Nat

/-- Ids are words, and behind the last word they start again. -/
instance Numbering.words : Numbering where
  next n := (n + 1) % Word.bound

namespace Unbounded

/-- Ids are counted as if there were no last word. Where this is in scope it goes before words. -/
scoped instance (priority := 2000) numbering : Numbering where
  next n := n + 1

@[simp] theorem next_eq (n : Nat) : Numbering.next n = n + 1 := rfl

end Unbounded

namespace Catalog

def empty : Catalog := {}

def isEmpty (c : Catalog) : Bool := c.tables.size == 0

/-- Whether two catalogs hold the same, whatever the order it came in. -/
def sameContents (a b : Catalog) : Bool :=
  a.tables.sameEntries b.tables && a.joins.sameEntries b.joins &&
    a.groups.sameEntries b.groups && a.sequences.sameEntries b.sequences && a.nextId == b.nextId

def present (breach : Breach) : Option α → Except Fault α
  | some a => .ok a
  | none => .error (.internal breach)

def table (c : Catalog) (id : TableId) : Except Fault Table :=
  present (.missingTable id) (c.tables.get? id)

def join (c : Catalog) (id : JoinId) : Except Fault Join :=
  present (.missingJoin id) (c.joins.get? id)

def group (c : Catalog) (id : GroupId) : Except Fault Group :=
  present (.missingGroup id) (c.groups.get? id)

def sequence (c : Catalog) (id : SequenceId) : Except Fault Sequence :=
  present (.missingSequence id) (c.sequences.get? id)

def tableNamed? (c : Catalog) (name : TableName) : Option Table :=
  c.tables.values.find? fun t => t.name == name

def tableNamed (c : Catalog) (name : TableName) : Except Fault Table :=
  match c.tableNamed? name with
  | some t => .ok t
  | none => .error (.noSuchTable name.schema name.name)

def column (c : Catalog) (table : TableId) (name : String) : Except Fault Column := do
  match (← c.table table).column? name with
  | some column => return column
  | none => throw (.noSuchColumn name)

def index (c : Catalog) (table : TableId) (name : String) : Except Fault Index := do
  let t ← c.table table
  match t.index? name with
  | some index => return index
  | none => throw (.noSuchIndex t.name.text name)

def sequenceNamed? (c : Catalog) (schema name : String) : Option Sequence :=
  c.sequences.values.find? fun s => s.schema == schema && s.name == name

def usesSequence (c : Catalog) (id : SequenceId) : Bool :=
  c.tables.values.any fun t => t.columns.any fun column => column.identity == some id

def allocateId [Numbering] : Edit Nat :=
  modifyGet fun c => (Numbering.next c.nextId, { c with nextId := Numbering.next c.nextId })

def editTable (id : TableId) (f : Table → Table) : Edit Unit := do
  let c ← get
  let _ ← c.table id
  set { c with tables := c.tables.modify id f }

def putTable (t : Table) : Edit Unit :=
  modify fun c => { c with tables := c.tables.insert t.id t }

def requireUnused (name : TableName) : Edit Unit := do
  if ((← get).tableNamed? name).isSome then
    throw (.duplicateTable name.text)

end Catalog

end GroupedTables
