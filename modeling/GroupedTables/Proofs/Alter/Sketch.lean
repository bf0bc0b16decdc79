import GroupedTables.Proofs.Alter.Elements
import GroupedTables.Proofs.Alter.Framing
import GroupedTables.Proofs.Alter.Plan

/-!
# Sketches of columns

A sketch tells of a column what it is to be: its name, type, default, what it draws from, and which
column of the table as it was it comes from. Edits act on a list of sketches alone, without a
catalog, so what a statement makes of a column can be read off the statement. The columns of a draft
fit their sketches at every step.
-/

namespace GroupedTables

open GroupedTables.Action Catalog

/-- What a column draws from. -/
inductive Supply where
  | nothing
  /-- The sequence it drew from in the live catalog. -/
  | live (id : SequenceId)
  /-- A new sequence in place of one it drew from. -/
  | renewed (q : Sequence)
  /-- A new sequence that a statement asks for. -/
  | created (q : Sequence)

namespace Supply

/-- With another increment. A live sequence gives way to one like it. -/
def counting (live : Catalog) (increment : Int) : Supply → Supply
  | nothing => nothing
  | .live id =>
    match live.sequences.get? id with
    | some q => renewed { q with increment }
    | none => .live id
  | renewed q => renewed { q with increment }
  | created q => created { q with increment }

/-- A column with an identity draws from what it is to draw from. A new sequence has an id above
all live ones. -/
def Meets (live : Catalog) (sequences : OrderedMap Sequence) (identity : Option SequenceId) :
    Supply → Prop
  | nothing => identity = none
  | .live id => identity = some id ∧ id ≤ live.nextId
  | renewed q | created q =>
    ∃ id, identity = some id ∧ live.nextId < id ∧ sequences.get? id = some { q with id }

/-- The sequence of a new column, or of one that becomes generated. -/
def ofIdentity (table : TableName) (column : String) (i : Identity) : Supply :=
  created (.ofStart table.schema (generatedName table column) i.start i.increment)

end Supply

/-- What an edit makes of the columns of a name that are there. -/
def ColumnEdit.modificationOf? (name : String) : ColumnEdit → Option ColumnModification
  | add _ => none
  | modify asked m => if asked = name then some m else none

/-- A column as it is to be. -/
structure Sketch where
  /-- The column of the table as it was that it comes from, unless it is new. -/
  origin : Option Column
  name : String
  descriptor : TypeDescriptor
  nullable : Bool
  default : Option ColumnDefault
  supply : Supply

namespace Sketch

/-- A column that stays as it is but for its name. -/
def ofColumn (a : Column) (name : String) : Sketch where
  origin := some a
  name
  descriptor := a.descriptor
  nullable := a.nullable
  default := a.default
  supply := a.identity.elim .nothing .live

/-- A new column. A generated one has no default. -/
def ofDefinition (table : TableName) (d : ColumnDefinition) : Sketch where
  origin := none
  name := d.name
  descriptor := d.descriptor
  nullable := d.nullable
  default := if d.identity.isSome then none else d.default
  supply := d.identity.elim .nothing (.ofIdentity table d.name)

/-- A default of a column that gets another type. -/
def fittedDefault (d : TypeDescriptor) : ColumnDefault → ColumnDefault
  | .literal text => .literal (Narrowing.fitted d text)
  | .function name => .function name

def modified (live : Catalog) (table : TableName) (s : Sketch) : ColumnModification → Sketch
  | .default default => { s with default, supply := .nothing }
  | .null => { s with nullable := true }
  | .notNull => { s with nullable := false }
  | .type descriptor => { s with descriptor, default := s.default.map (fittedDefault descriptor) }
  | .identity (.create i) => { s with default := none, supply := .ofIdentity table s.name i }
  | .identity (.setIncrement increment) => { s with supply := s.supply.counting live increment }
  | .identity (.restart _) => s

/-- What an edit makes of the columns that are there. -/
def edited (live : Catalog) (table : TableName) (sketches : List Sketch) : ColumnEdit → List Sketch
  | .add d => sketches ++ [ofDefinition table d]
  | .modify name m => sketches.map fun s => if s.name = name then s.modified live table m else s

/-- The columns that stay, under the names that a list of changes gives them. -/
def kept (changes : List Change) (columns : List Column) : List Sketch :=
  columns.filterMap fun a => (Change.finalName? changes a.name).map (ofColumn a)

/-- The columns of a table after the edits of a statement. -/
def ofEdits (live : Catalog) (current : Table) (e : Edits) : List Sketch :=
  e.columns.foldl (edited live current.name) (kept e.columnChanges current.columns)

/-- A column is as it was sketched. -/
structure Fits (live : Catalog) (sequences : OrderedMap Sequence) (s : Sketch) (column : Column) :
    Prop where
  name : column.name = s.name
  descriptor : column.descriptor = s.descriptor
  nullable : column.nullable = s.nullable
  default : column.default = s.default
  supply : s.supply.Meets live sequences column.identity

variable {live : Catalog} {table : TableName} {current : Table} {s : Sketch}
  {m : ColumnModification} {changes : List Change} {e : Edits}

@[simp] theorem origin_modified : (s.modified live table m).origin = s.origin := by
  cases m with
  | identity change => cases change <;> rfl
  | _ => rfl

@[simp] theorem name_modified : (s.modified live table m).name = s.name := by
  cases m with
  | identity change => cases change <;> rfl
  | _ => rfl

@[simp] theorem origin_foldl_modified {ms : List ColumnModification} :
    (ms.foldl (modified live table) s).origin = s.origin := by
  induction ms generalizing s with
  | nil => rfl
  | cons m rest ih => rw [List.foldl_cons, ih, origin_modified]

@[simp] theorem name_foldl_modified {ms : List ColumnModification} :
    (ms.foldl (modified live table) s).name = s.name := by
  induction ms generalizing s with
  | nil => rfl
  | cons m rest ih => rw [List.foldl_cons, ih, name_modified]

/-- A column after edits, of which those of its name are about it. -/
def through (live : Catalog) (table : TableName) (edits : List ColumnEdit) (s : Sketch) : Sketch :=
  (edits.filterMap (ColumnEdit.modificationOf? s.name)).foldl (modified live table) s

/-- The columns that edits add, each after the edits that follow it. -/
def added (live : Catalog) (table : TableName) : List ColumnEdit → List Sketch
  | [] => []
  | .add d :: rest => (ofDefinition table d).through live table rest :: added live table rest
  | .modify .. :: rest => added live table rest

@[simp] theorem through_add {d : ColumnDefinition} {rest : List ColumnEdit} :
    s.through live table (.add d :: rest) = s.through live table rest := by
  rw [through, List.filterMap_cons_none rfl, through]

@[simp] theorem through_modify {name : String} {rest : List ColumnEdit} :
    s.through live table (.modify name m :: rest) =
      (if s.name = name then s.modified live table m else s).through live table rest := by
  by_cases same : s.name = name
  · simp [through, ColumnEdit.modificationOf?, same]
  · simp [through, ColumnEdit.modificationOf?, same, Ne.symm same]

@[simp] theorem origin_through {edits : List ColumnEdit} :
    (s.through live table edits).origin = s.origin := origin_foldl_modified

@[simp] theorem name_through {edits : List ColumnEdit} :
    (s.through live table edits).name = s.name := name_foldl_modified

theorem foldl_edited (edits : List ColumnEdit) (sketches : List Sketch) :
    edits.foldl (edited live table) sketches =
      sketches.map (through live table edits) ++ added live table edits := by
  induction edits generalizing sketches with
  | nil =>
    rw [List.foldl_nil, added, List.append_nil]
    exact (List.map_id sketches).symm
  | cons edit rest ih =>
    rw [List.foldl_cons, ih]
    cases edit with
    | add d => simp [edited, added]
    | modify name m => simp [edited, added, through_modify]

/-- First stand the columns that stay, then those that are added. -/
theorem ofEdits_eq : ofEdits live current e =
    (kept e.columnChanges current.columns).map (through live current.name e.columns) ++
      added live current.name e.columns :=
  foldl_edited ..

end Sketch

end GroupedTables
