import GroupedTables.Json.Decode

/-!
# How tables are altered

The settings of the planner and of what carries its plans out.
-/

namespace GroupedTables

/-- How an alteration that writes every row anew is carried out. -/
inductive Strategy where
  /-- The definition is replaced under the id of the table. -/
  | inPlace
  /-- The new definition is built under another name, and then the names are swapped. -/
  | copyAndSwap
  deriving Repr, DecidableEq, Inhabited

namespace Strategy

def storedName : Strategy → String
  | inPlace => "InPlace"
  | copyAndSwap => "CopyAndSwap"

def ofStoredName? (name : String) : Option Strategy :=
  [inPlace, copyAndSwap].find? fun s => s.storedName == name

end Strategy

structure Config where
  /-- The name a new definition is built under. -/
  temporaryNew : String := "__TEMP_NEW"
  /-- The name the old definition is moved to. -/
  temporaryOld : String := "__TEMP_OLD"
  strategy : Strategy := .inPlace
  /-- Most characters of a made-up index name. -/
  indexNameLimit : Nat := 64
  deriving Repr, DecidableEq, Inhabited

namespace Config

def toJson (c : Config) : Json :=
  .object [
    ("temp_table_name_new", .string c.temporaryNew),
    ("temp_table_name_old", .string c.temporaryOld),
    ("rewrite", .string c.strategy.storedName),
    ("index_name_max_length", Json.nat c.indexNameLimit)]

def ofJson? (v : Json) : Option Config := do
  let fields ← v.record?
    ["temp_table_name_new", "temp_table_name_old", "rewrite", "index_name_max_length"]
  let temporaryNew ← fields.required "temp_table_name_new" Json.string?
  let temporaryOld ← fields.required "temp_table_name_old" Json.string?
  let strategy ← fields.required "rewrite" (Json.plainChoice? Strategy.ofStoredName?)
  let indexNameLimit ← fields.required "index_name_max_length" Json.word?
  return { temporaryNew, temporaryOld, strategy, indexNameLimit }

end Config

end GroupedTables
