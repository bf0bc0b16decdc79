import GroupedTables.Alter.Context
import GroupedTables.Alter.Level

/-!
# What carries alterations out

The planner decides what is to become of a table and leaves the doing to a backend. A
backend is a state with the actions on it that planning and swapping need; nothing else is
known of it.
-/

namespace GroupedTables

/-- Creates, renames and drops tables in a state. -/
structure TableActions (σ : Type) where
  create : Table → Action σ TableId
  rename : TableName → TableName → Action σ Unit
  drop : TableName → Action σ Unit

/-- A state in which a statement runs, with what is known of the statement. -/
structure Run (σ : Type) where
  state : σ
  context : Context := {}

namespace Run

variable {σ α : Type}

def onState (act : Action σ α) : Action (Run σ) α :=
  Action.within state (fun s run => { run with state := s }) act

def onContext (act : Action Context α) : Action (Run σ) α :=
  Action.within context (fun c run => { run with context := c }) act

end Run

structure Backend (σ : Type) extends TableActions σ where
  /-- The catalog as it is. -/
  catalog : σ → Catalog
  /-- Makes a table what it is to be, given what happens to its columns and its indexes, and
  tells what that cost. -/
  alter : TableName → Staged → List Change → List Change → Action (Run σ) Level
  /-- Gathers statistics on some indexes of a table, or on all. -/
  statistics : TableName → Option (List String) → Action σ Unit
  /-- Removes the rows of a table, and with them those of all tables below it if asked to. -/
  truncate : TableId → Bool → Action σ Unit

/-- Puts the rows of one table into another one. -/
abbrev Copier (σ : Type) := TableName → TableName → Action σ Unit

/-- The copier for tables without rows. -/
def Copier.nothing {σ : Type} : Copier σ := fun _ _ => pure ()

end GroupedTables
