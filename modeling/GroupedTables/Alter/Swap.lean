import GroupedTables.Alter.Backend
import GroupedTables.Alter.Config

/-!
# Replacing a table by swapping names

A table is replaced by building the new one under a name of its own, filling it, and moving
the names: the old table away, the new one into its place. Only then is the old table
dropped. When a step fails, the ones before it are undone from the last to the first, each
by the step that leads back; that one of these fails too is not the fault that is reported.
-/

namespace GroupedTables

structure Swap where
  name : TableName
  /-- The name the new table is built under. -/
  temporaryNew : TableName
  /-- The name the old table is moved to. -/
  temporaryOld : TableName
  definition : Table

namespace Swap

/-- Replaces a table by one with another definition. Both names in between are in the schema
of the table. -/
def ofConfig (config : Config) (name : TableName) (definition : Table) : Swap where
  name
  temporaryNew := ⟨name.schema, config.temporaryNew⟩
  temporaryOld := ⟨name.schema, config.temporaryOld⟩
  definition

variable {σ : Type}

/-- Moves the new table into the place of the old one, which has been moved away, and drops
the old one. -/
def moveIn (w : Swap) (tables : TableActions σ) : Action σ Unit := do
  tables.rename w.temporaryNew w.name
  Action.orUndo (tables.drop w.temporaryOld) (tables.rename w.name w.temporaryNew)

/-- Fills the new table and exchanges the two. -/
def exchange (w : Swap) (tables : TableActions σ) (copier : Copier σ) : Action σ Unit := do
  copier w.name w.temporaryNew
  tables.rename w.name w.temporaryOld
  Action.orUndo (w.moveIn tables) (tables.rename w.temporaryOld w.name)

/-- Replaces the table and yields the id of the new one. -/
def execute (w : Swap) (tables : TableActions σ) (copier : Copier σ) : Action σ TableId := do
  let id ← tables.create { w.definition with name := w.temporaryNew }
  Action.orUndo (w.exchange tables copier) (tables.drop w.temporaryNew)
  return id

end Swap

end GroupedTables
