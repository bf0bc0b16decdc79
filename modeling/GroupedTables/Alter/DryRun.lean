import GroupedTables.Alter.Backend

/-!
# Dry runs

A backend that carries nothing out. It notes what is asked of it, call by call, and refuses
the calls it is told to refuse, so a plan can be looked at before it is carried out, and what
happens when one of its steps fails can be tried.
-/

namespace GroupedTables

structure DryRun where
  catalog : Catalog := {}
  /-- The calls that are refused. -/
  refused : List String := []
  /-- The calls that were made, refused or not. -/
  calls : List String := []
  /-- The last alteration that was asked for. -/
  altered : Option (Staged × List Change × List Change) := none

namespace DryRun

/-- Notes a call, and refuses it if it is one of those to be refused. -/
def call (text : String) : Action DryRun Unit := do
  modify fun r => { r with calls := r.calls ++ [text] }
  if (← get).refused.contains text then
    throw (.invalidRow (.reported text))

/-- The id that every table that is created gets. -/
def createdId : TableId := 99

/-- Notes what is created, renamed and dropped. -/
def tableActions : TableActions DryRun where
  create t := do
    call s!"create {t.name.text}"
    return createdId
  rename name newName := call s!"rename {name.text} {newName.text}"
  drop name := call s!"drop {name.text}"

def copier : Copier DryRun := fun source destination =>
  call s!"copy {source.text} {destination.text}"

/-- Notes an alteration, and tells what it would cost. -/
def alter (name : TableName) (target : Staged) (columnChanges indexChanges : List Change) :
    Action (Run DryRun) Level := do
  Run.onState (modify fun r => { r with altered := some (target, columnChanges, indexChanges) })
  let live := (← get).state.catalog
  let t ← live.tableNamed name
  let level ← Level.classify live t.id target columnChanges indexChanges
  Run.onState (call s!"alter {name.text}")
  return level

def indexesText : Option (List String) → String
  | none => "all"
  | some names => ",".intercalate names

def backend : Backend DryRun where
  toTableActions := tableActions
  catalog := catalog
  alter := alter
  statistics name indexes := call s!"statistics {name.text} {indexesText indexes}"
  truncate id cascade := call s!"truncate {id} {cascade}"

end DryRun

end GroupedTables
