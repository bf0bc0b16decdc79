import GroupedTables.DataType.Descriptor
import GroupedTables.Word

/-!
# Tables and what belongs to them

The entities of a catalog: tables with their columns and indexes, joins that hang a child
table under its parent, groups of tables joined to one root, and the sequences that
identity columns draw from. Entities refer to each other by id, so a part of a catalog can
be copied without taking references apart.
-/

namespace GroupedTables

abbrev TableId := Nat

abbrev JoinId := Nat

abbrev GroupId := Nat

abbrev SequenceId := Nat

structure TableName where
  schema : String
  name : String
  deriving Repr, DecidableEq, Inhabited

def TableName.text (n : TableName) : String := n.schema ++ "." ++ n.name

/-- What a column holds when nothing is given for it. -/
inductive ColumnDefault where
  /-- Text, evaluated against the column type on insert. -/
  | literal (text : String)
  /-- The name of a function, such as `CURRENT_TIMESTAMP`. -/
  | function (name : String)
  deriving Repr, DecidableEq

structure Column where
  name : String
  position : Nat := 0
  descriptor : TypeDescriptor
  nullable : Bool := true
  default : Option ColumnDefault := none
  /-- The sequence its values are drawn from, if it is generated. -/
  identity : Option SequenceId := none
  deriving Repr, DecidableEq, Inhabited

structure IndexColumn where
  column : String
  ascending : Bool := true
  deriving Repr, DecidableEq

structure Index where
  name : String
  columns : List IndexColumn
  unique : Bool := false
  primary : Bool := false
  deriving Repr, DecidableEq, Inhabited

namespace Index

/-- The name of the primary key, kept for it alone. -/
def primaryName : String := "PRIMARY"

/-- An index with the columns in ascending order. -/
def ofColumns (name : String) (columns : List String) : Index :=
  { name, columns := columns.map fun column => { column } }

def uniqueOf (name : String) (columns : List String) : Index :=
  { ofColumns name columns with unique := true }

def primaryOf (columns : List String) : Index :=
  { ofColumns primaryName columns with unique := true, primary := true }

def columnNames (i : Index) : List String := i.columns.map (·.column)

def references (i : Index) (column : String) : Bool := i.columns.any fun c => c.column == column

end Index

structure JoinColumn where
  parent : String
  child : String
  deriving Repr, DecidableEq

/-- Hangs a child table under its parent. -/
structure Join where
  id : JoinId
  parent : TableId
  child : TableId
  columns : List JoinColumn
  deriving Repr, DecidableEq, Inhabited

structure Group where
  id : GroupId
  name : String
  root : TableId
  deriving Repr, DecidableEq, Inhabited

structure Sequence where
  id : SequenceId
  schema : String
  name : String
  start : Int
  increment : Int
  min : Int
  max : Int
  cycle : Bool
  deriving Repr, DecidableEq, Inhabited

namespace Sequence

/-- A sequence of positive numbers within eight bytes, without an id of its own yet. -/
def ofStart (schema name : String) (start increment : Int) : Sequence :=
  { id := 0, schema, name, start, increment, min := 1, max := Word.greatest, cycle := false }

end Sequence

structure Table where
  id : TableId
  name : TableName
  columns : List Column := []
  /-- The indexes, the primary key among them. -/
  indexes : List Index := []
  /-- The join under its parent; a table without one is a root. -/
  parentJoin : Option JoinId := none
  /-- The group it is in, once it is assigned to one. -/
  group : Option GroupId := none
  /-- Whether its rows are made up on demand. -/
  isVirtual : Bool := false
  deriving Repr, DecidableEq, Inhabited

namespace Table

def column? (t : Table) (name : String) : Option Column := t.columns.find? (·.name == name)

/-- The first of some column names that is not one of the table. -/
def missingColumn? (t : Table) (names : List String) : Option String :=
  names.find? fun name => (t.column? name).isNone

def index? (t : Table) (name : String) : Option Index := t.indexes.find? (·.name == name)

def primaryKey? (t : Table) : Option Index := t.index? Index.primaryName

def isRoot (t : Table) : Bool := t.parentJoin.isNone

end Table

end GroupedTables
