import GroupedTables.Alter.Change
import GroupedTables.Alter.Statement
import GroupedTables.Fault.Basic

/-!
# What a statement asks for

The elements of a statement are sorted by the part of the table they are about, each part in
the order of the statement. One element that renames the table, or that is not carried out
at all, decides the whole statement, and the elements behind it are not looked at.
-/

namespace GroupedTables

/-- What is to be done to the columns that are there in the end. -/
inductive ColumnEdit where
  | add (definition : ColumnDefinition)
  | modify (name : String) (modification : ColumnModification)

inductive KeyEdit where
  | primary (columns : List String)
  | unique (name : Option String) (columns : List String)

inductive ParentEdit where
  | join (key : ForeignKey)
  | leave

/-- The elements of a statement by what they are about. -/
structure Edits where
  columnChanges : List Change := []
  indexChanges : List Change := []
  columns : List ColumnEdit := []
  keys : List KeyEdit := []
  parents : List ParentEdit := []

inductive Route where
  | edit (edits : Edits)
  | rename (newName : QualifiedName)
  | unsupported

namespace Edits

/-- The name of the index that a constraint to be dropped stands for. -/
def droppedKey (t : Table) : ConstraintDrop → Except Fault String
  | .primaryKey => .ok Index.primaryName
  | .unique name | .named name =>
    if (t.index? name).any (!·.unique) then .error (.noSuchUnique t.name.text name) else .ok name
  | .check _ => .error .checkConstraint

/-- Adds an element that is about a part of the table. -/
def withElement (t : Table) (e : Edits) : Element → Except Fault Edits
  | .addColumn definition => .ok { e with
      columnChanges := e.columnChanges ++ [.add definition.name]
      columns := e.columns ++ [.add definition] }
  | .dropColumn name => .ok { e with columnChanges := e.columnChanges ++ [.drop name] }
  | .modifyColumn name modification => .ok { e with
      columnChanges := e.columnChanges ++ [.modify name name]
      columns := e.columns ++ [.modify name modification] }
  | .renameColumn name newName =>
    if (t.column? name).isNone then .error (.noSuchColumn name)
    else .ok { e with columnChanges := e.columnChanges ++ [.modify name newName] }
  | .addForeignKey key =>
    if key.grouping then .ok { e with parents := e.parents ++ [.join key] }
    else .error .foreignKeyNotGrouping
  | .dropForeignKey grouping _ =>
    if grouping then .ok { e with parents := e.parents ++ [.leave] }
    else .error .foreignKeyNotGrouping
  | .addConstraint (.primaryKey _ columns) => .ok { e with keys := e.keys ++ [.primary columns] }
  | .addConstraint (.unique name columns) => .ok { e with keys := e.keys ++ [.unique name columns] }
  | .addConstraint (.check ..) => .error .checkConstraint
  | .dropConstraint constraint =>
    (droppedKey t constraint).map fun name =>
      { e with indexChanges := e.indexChanges ++ [.drop name] }
  | .renameTable _ | .other _ => .ok e

end Edits

namespace Route

def ofElementsFrom (t : Table) (e : Edits) : List Element → Except Fault Route
  | [] => .ok (.edit e)
  | .renameTable newName :: _ => .ok (.rename newName)
  | .other _ :: _ => .ok .unsupported
  | element :: rest => do
    ofElementsFrom t (← e.withElement t element) rest

/-- Sorts the elements of a statement about a table. A statement without any is not carried
out. -/
def ofElements (t : Table) (elements : List Element) : Except Fault Route :=
  if elements.isEmpty then .ok .unsupported else ofElementsFrom t {} elements

end Route

end GroupedTables
