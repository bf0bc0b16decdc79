import GroupedTables.Catalog.Entities

/-!
# Statements

The statements that alter a table or a group, as they are after parsing, and their text in
messages. A statement about a group stands for a change of the grouping foreign key of the
table it names.
-/

namespace GroupedTables

/-- The name of a table as it is written, with or without its schema. -/
structure QualifiedName where
  schema : Option String := none
  name : String
  deriving Repr, DecidableEq

namespace QualifiedName

/-- The table that is meant, in a schema unless it names one itself. -/
def resolve (n : QualifiedName) (schema : String) : TableName := ⟨n.schema.getD schema, n.name⟩

def text (n : QualifiedName) : String :=
  match n.schema with
  | some schema => s!"{schema}.{n.name}"
  | none => n.name

end QualifiedName

/-- The numbers a generated column starts with and counts in. -/
structure Identity where
  start : Int
  increment : Int
  deriving Repr, DecidableEq

structure ColumnDefinition where
  name : String
  descriptor : TypeDescriptor
  nullable : Bool := true
  default : Option ColumnDefault := none
  identity : Option Identity := none
  deriving Repr, DecidableEq

/-- What is to be done about the generator of a column. -/
inductive IdentityChange where
  | create (identity : Identity)
  | setIncrement (increment : Int)
  | restart (value : Int)
  deriving Repr, DecidableEq

inductive ColumnModification where
  /-- Another default, or none. The column is no longer generated. -/
  | default (value : Option ColumnDefault)
  | null
  | notNull
  | type (descriptor : TypeDescriptor)
  | identity (change : IdentityChange)
  deriving Repr, DecidableEq

structure ForeignKey where
  name : Option String := none
  /-- Whether the table is to be joined under the one it refers to. -/
  grouping : Bool := true
  columns : List String
  parent : QualifiedName
  /-- The columns it refers to; none stands for the primary key. -/
  parentColumns : List String := []
  deriving Repr, DecidableEq

inductive Constraint where
  | primaryKey (name : Option String) (columns : List String)
  | unique (name : Option String) (columns : List String)
  | check (name : Option String) (condition : String)
  deriving Repr, DecidableEq

inductive ConstraintDrop where
  | primaryKey
  | unique (name : String)
  /-- By name, without saying what it is. -/
  | named (name : String)
  | check (name : String)
  deriving Repr, DecidableEq

inductive Element where
  | addColumn (definition : ColumnDefinition)
  | dropColumn (name : String)
  | modifyColumn (name : String) (modification : ColumnModification)
  | renameColumn (name newName : String)
  | addForeignKey (key : ForeignKey)
  | dropForeignKey (grouping : Bool) (name : Option String)
  | addConstraint (constraint : Constraint)
  | dropConstraint (constraint : ConstraintDrop)
  | renameTable (newName : QualifiedName)
  /-- Something that can be written but is not carried out. -/
  | other (text : String)
  deriving Repr, DecidableEq

namespace Element

/-- The word that tells a grouping foreign key from any other. -/
def groupingWord (grouping : Bool) : String := if grouping then "GROUPING " else ""

def columnList (columns : List String) : String := ", ".intercalate columns

/-- The element in messages. Some things are left out. -/
def text : Element → String
  | addColumn d => s!"ADD COLUMN {d.name} {d.descriptor.text}"
  | dropColumn name => s!"DROP COLUMN {name}"
  | modifyColumn name _ => s!"ALTER COLUMN {name}"
  | renameColumn name newName => s!"RENAME COLUMN {name} TO {newName}"
  | addForeignKey key =>
    let parentColumns :=
      if key.parentColumns.isEmpty then "" else s!"({columnList key.parentColumns})"
    let refers := s!"REFERENCES {key.parent.text}{parentColumns}"
    s!"ADD {groupingWord key.grouping}FOREIGN KEY({columnList key.columns}) {refers}"
  | dropForeignKey grouping _ => s!"DROP {groupingWord grouping}FOREIGN KEY"
  | addConstraint _ => "ADD CONSTRAINT"
  | dropConstraint _ => "DROP CONSTRAINT"
  | renameTable newName => s!"RENAME TO {newName.text}"
  | other text => text

end Element

inductive Operation where
  /-- Gather statistics on an index, or on all. -/
  | statistics (index : Option String)
  | truncate (cascade : Bool)
  | elements (elements : List Element)
  deriving Repr, DecidableEq

structure AlterTable where
  table : QualifiedName
  operation : Operation
  deriving Repr, DecidableEq

def AlterTable.text (s : AlterTable) : String :=
  let operation := match s.operation with
    | .statistics (some index) => s!" UPDATE STATISTICS {index}"
    | .statistics none => " ALL UPDATE STATISTICS"
    | .truncate cascade => if cascade then " TRUNCATE CASCADE" else " TRUNCATE"
    | .elements [] => ""
    | .elements elements => " " ++ ", ".intercalate (elements.map Element.text)
  s!"ALTER TABLE {s.table.text}{operation}"

inductive AlterGroup where
  | addTable (child : QualifiedName) (columns : List String) (parent : QualifiedName)
      (parentColumns : List String)
  | dropTable (table : QualifiedName)
  deriving Repr, DecidableEq

namespace AlterGroup

/-- The table whose grouping foreign key it is about. -/
def table : AlterGroup → QualifiedName
  | addTable child .. => child
  | dropTable t => t

def elements : AlterGroup → List Element
  | addTable _ columns parent parentColumns => [.addForeignKey { columns, parent, parentColumns }]
  | dropTable _ => [.dropForeignKey true none]

def alterTable (s : AlterGroup) : AlterTable := ⟨s.table, .elements s.elements⟩

end AlterGroup

end GroupedTables
