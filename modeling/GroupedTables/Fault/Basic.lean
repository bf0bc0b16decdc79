import GroupedTables.Fault.Breach
import GroupedTables.Fault.Diagnostic
import GroupedTables.Fault.RowDefect

/-!
# Faults

Every way in which an operation can fail, as its cause. The words and the stable code of
a cause are fixed here and nowhere else, so an operation only says what went wrong.
-/

namespace GroupedTables

/-- Why an operation failed. Tables and types are given as they are shown. -/
inductive Fault where
  | noSuchTable (schema table : String)
  | noSuchColumn (column : String)
  | noSuchIndex (table index : String)
  /-- No unique index has the name of a constraint. -/
  | noSuchUnique (table name : String)
  | duplicateTable (table : String)
  | joinToUnknownTable (child parent : String)
  | joinCycle (child parent : String)
  | duplicateColumn (table column : String)
  | duplicateIndex (table index : String)
  /-- The table is the root of its group. -/
  | noGroupingKey (table : String)
  | secondParent (table : String)
  | joinWidths (child parent : String) (childColumns parentColumns : Nat)
  | joinTypes (childColumn childType parentColumn parentType : String)
  | foreignKeyNotGrouping
  | checkConstraint
  /-- An alteration that is not carried out; the whole statement is named if none of it is. -/
  | unsupported (what : String) (statement : Option String)
  | alreadyGenerated (table column : String)
  | notGenerated (table column : String)
  | nullValue (field : Nat)
  | undecodable (reason : String)
  | invalidRow (defect : RowDefect)
  | cancelled
  | internal (breach : Breach)
  deriving Repr, DecidableEq

namespace Fault

/-- The code that stays the same across versions. -/
def code : Fault → String
  | noSuchTable .. => "CATALOG_001"
  | noSuchColumn .. => "CATALOG_002"
  | noSuchIndex .. => "CATALOG_003"
  | noSuchUnique .. => "CATALOG_004"
  | duplicateTable .. => "CATALOG_005"
  | joinToUnknownTable .. => "CATALOG_006"
  | joinCycle .. => "CATALOG_007"
  | duplicateColumn .. => "CATALOG_008"
  | duplicateIndex .. => "CATALOG_009"
  | noGroupingKey .. => "ALTER_001"
  | secondParent .. => "ALTER_002"
  | joinWidths .. => "ALTER_003"
  | joinTypes .. => "ALTER_003"
  | foreignKeyNotGrouping => "ALTER_004"
  | checkConstraint => "ALTER_005"
  | unsupported .. => "ALTER_006"
  | alreadyGenerated .. => "ALTER_007"
  | notGenerated .. => "ALTER_008"
  | nullValue .. => "ROW_001"
  | undecodable .. => "ROW_002"
  | invalidRow .. => "ROW_003"
  | cancelled => "QUERY_001"
  | internal .. => "INTERNAL_ERROR"

def message : Fault → String
  | noSuchTable schema table => s!"table `{schema}.{table}` not found"
  | noSuchColumn column => s!"column `{column}` not found"
  | noSuchIndex table index => s!"index `{index}` not found on table `{table}`"
  | noSuchUnique table name => s!"unique constraint `{name}` not found on table `{table}`"
  | duplicateTable table => s!"table `{table}` already exists"
  | joinToUnknownTable child parent =>
    s!"table `{child}` cannot join to unknown parent table `{parent}`"
  | joinCycle child parent => s!"joining `{child}` to `{parent}` would create a cycle"
  | duplicateColumn table column => s!"column `{column}` already exists on table `{table}`"
  | duplicateIndex table index => s!"index `{index}` already exists on table `{table}`"
  | noGroupingKey table => s!"table `{table}` has no grouping foreign key"
  | secondParent table => s!"table `{table}` already has a parent join"
  | joinWidths child parent childColumns parentColumns =>
    s!"join from `{child}` ({childColumns} columns) to `{parent}` ({parentColumns} columns) " ++
      "does not match"
  | joinTypes childColumn childType parentColumn parentType =>
    s!"join column `{childColumn}` of type `{childType}` is not compatible with " ++
      s!"parent column `{parentColumn}` of type `{parentType}`"
  | foreignKeyNotGrouping => "foreign keys are only supported as GROUPING foreign keys"
  | checkConstraint => "CHECK constraints are not supported"
  | unsupported what _ => s!"unsupported SQL: {what}"
  | alreadyGenerated table column => s!"column `{column}` on table `{table}` is already generated"
  | notGenerated table column => s!"column `{column}` on table `{table}` is not generated"
  | nullValue field => s!"field {field} is null"
  | undecodable reason => reason
  | invalidRow defect => defect.message
  | cancelled => "query was cancelled"
  | internal breach => s!"Internal error: {breach.message}"

def label : Fault → Option String
  | noSuchTable .. => "unknown table"
  | noSuchColumn .. => "this column does not exist on the referenced table"
  | noSuchIndex .. => "unknown index"
  | noSuchUnique .. => "no unique index with this name"
  | duplicateTable .. => "duplicate table definition"
  | joinToUnknownTable .. => "unknown parent table"
  | joinCycle .. => "groups must form a tree"
  | duplicateColumn .. => "duplicate column definition"
  | duplicateIndex .. => "duplicate index definition"
  | noGroupingKey .. => "table is the root of its group"
  | secondParent .. => "a table can only have one parent"
  | joinWidths .. => "join column lists must match"
  | joinTypes .. => "incompatible join column types"
  | foreignKeyNotGrouping => none
  | checkConstraint => none
  | unsupported .. => "this alteration is not implemented"
  | alreadyGenerated .. => "column already has an identity generator"
  | notGenerated .. => "column does not have an identity generator"
  | nullValue .. => "typed read of a null value"
  | undecodable .. => "text could not be decoded with the declared charset"
  | invalidRow .. => "row record does not match its layout"
  | cancelled => none
  | internal .. => none

def help : Fault → Option String
  | noSuchTable schema table =>
    s!"ensure table `{table}` exists in schema `{schema}` or create it first"
  | noSuchColumn .. => "check for typos or ensure the column is defined on the table"
  | noSuchUnique .. => "only unique indexes can be dropped as a UNIQUE constraint"
  | duplicateTable .. => "choose a different table name or drop the existing table first"
  | noGroupingKey .. => "only tables joined to a parent can drop their grouping foreign key"
  | secondParent .. => "drop the existing grouping foreign key before adding a new one"
  | joinWidths .. => "reference the same number of columns with compatible types on both sides"
  | foreignKeyNotGrouping => "declare the foreign key as GROUPING FOREIGN KEY"
  | alreadyGenerated .. => "drop the default before adding a new identity"
  | notGenerated .. => "only generated columns can have their increment altered"
  | nullValue .. => "check is_null() before reading the value"
  | _ => none

/-- The statement a fault is about, where it is about a whole one. -/
def statement : Fault → Option String
  | unsupported _ s => s
  | _ => none

/-- What finds a defect in a record fails with it. -/
instance : MonadLift (Except RowDefect) (Except Fault) where
  monadLift := Except.mapError .invalidRow

def report (f : Fault) : Diagnostic where
  code := f.code
  statement := f.statement
  message := f.message
  label := f.label
  help := f.help

@[simp] theorem report_code (f : Fault) : f.report.code = f.code := rfl

@[simp] theorem report_message (f : Fault) : f.report.message = f.message := rfl

end Fault

end GroupedTables
