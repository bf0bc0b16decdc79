import GroupedTables.Catalog.Basic
import GroupedTables.Json.Parser
import GroupedTables.Json.Printer

/-!
# Stored catalogs

The form in which a catalog is written to text and read back: records as objects with their
fields in a fixed order, maps as objects keyed by the id, in the order of the map. An absent
optional field is read as one without a value; an entry that comes twice is read as its last
form at its first place.
-/

namespace GroupedTables

open Json

namespace TableName

def toJson (n : TableName) : Json :=
  .object [("schema", .string n.schema), ("name", .string n.name)]

def ofJson? (v : Json) : Option TableName := do
  let fields ← v.record? ["schema", "name"]
  let schema ← fields.required "schema" string?
  let name ← fields.required "name" string?
  return { schema, name }

end TableName

namespace ColumnDefault

def toJson : ColumnDefault → Json
  | literal text => .object [("Literal", .string text)]
  | function name => .object [("Function", .string name)]

def ofJson? (v : Json) : Option ColumnDefault := do
  match ← choice? v with
  | ("Literal", some text) => return literal (← string? text)
  | ("Function", some name) => return function (← string? name)
  | _ => none

end ColumnDefault

namespace Column

def toJson (c : Column) : Json :=
  .object [
    ("name", .string c.name),
    ("position", Json.nat c.position),
    ("descriptor", c.descriptor.toJson),
    ("nullable", .bool c.nullable),
    ("default", Json.optional ColumnDefault.toJson c.default),
    ("identity", Json.optional Json.nat c.identity)]

def ofJson? (v : Json) : Option Column := do
  let fields ← v.record? ["name", "position", "descriptor", "nullable", "default", "identity"]
  let name ← fields.required "name" string?
  let position ← fields.required "position" word?
  let descriptor ← fields.required "descriptor" TypeDescriptor.ofJson?
  let nullable ← fields.required "nullable" bool?
  let default ← fields.absentOr "default" ColumnDefault.ofJson?
  let identity ← fields.absentOr "identity" word?
  return { name, position, descriptor, nullable, default, identity }

end Column

namespace IndexColumn

def toJson (c : IndexColumn) : Json :=
  .object [("column", .string c.column), ("ascending", .bool c.ascending)]

def ofJson? (v : Json) : Option IndexColumn := do
  let fields ← v.record? ["column", "ascending"]
  let column ← fields.required "column" string?
  let ascending ← fields.required "ascending" bool?
  return { column, ascending }

end IndexColumn

namespace Index

def toJson (i : Index) : Json :=
  .object [
    ("name", .string i.name),
    ("columns", Json.list IndexColumn.toJson i.columns),
    ("unique", .bool i.unique),
    ("primary", .bool i.primary)]

def ofJson? (v : Json) : Option Index := do
  let fields ← v.record? ["name", "columns", "unique", "primary"]
  let name ← fields.required "name" string?
  let columns ← fields.required "columns" (list? IndexColumn.ofJson?)
  let unique ← fields.required "unique" bool?
  let primary ← fields.required "primary" bool?
  return { name, columns, unique, primary }

end Index

namespace Table

def toJson (t : Table) : Json :=
  .object [
    ("id", Json.nat t.id),
    ("name", t.name.toJson),
    ("columns", Json.list Column.toJson t.columns),
    ("indexes", Json.list Index.toJson t.indexes),
    ("parent_join", Json.optional Json.nat t.parentJoin),
    ("group", Json.optional Json.nat t.group),
    ("is_virtual", .bool t.isVirtual)]

def ofJson? (v : Json) : Option Table := do
  let fields ← v.record?
    ["id", "name", "columns", "indexes", "parent_join", "group", "is_virtual"]
  let id ← fields.required "id" word?
  let name ← fields.required "name" TableName.ofJson?
  let columns ← fields.required "columns" (list? Column.ofJson?)
  let indexes ← fields.required "indexes" (list? Index.ofJson?)
  let parentJoin ← fields.absentOr "parent_join" word?
  let group ← fields.absentOr "group" word?
  let isVirtual ← fields.required "is_virtual" bool?
  return { id, name, columns, indexes, parentJoin, group, isVirtual }

end Table

namespace JoinColumn

def toJson (c : JoinColumn) : Json :=
  .object [("parent", .string c.parent), ("child", .string c.child)]

def ofJson? (v : Json) : Option JoinColumn := do
  let fields ← v.record? ["parent", "child"]
  let parent ← fields.required "parent" string?
  let child ← fields.required "child" string?
  return { parent, child }

end JoinColumn

namespace Join

def toJson (j : Join) : Json :=
  .object [
    ("id", Json.nat j.id),
    ("parent", Json.nat j.parent),
    ("child", Json.nat j.child),
    ("columns", Json.list JoinColumn.toJson j.columns)]

def ofJson? (v : Json) : Option Join := do
  let fields ← v.record? ["id", "parent", "child", "columns"]
  let id ← fields.required "id" word?
  let parent ← fields.required "parent" word?
  let child ← fields.required "child" word?
  let columns ← fields.required "columns" (list? JoinColumn.ofJson?)
  return { id, parent, child, columns }

end Join

namespace Group

def toJson (g : Group) : Json :=
  .object [("id", Json.nat g.id), ("name", .string g.name), ("root", Json.nat g.root)]

def ofJson? (v : Json) : Option Group := do
  let fields ← v.record? ["id", "name", "root"]
  let id ← fields.required "id" word?
  let name ← fields.required "name" string?
  let root ← fields.required "root" word?
  return { id, name, root }

end Group

namespace Sequence

def toJson (s : Sequence) : Json :=
  .object [
    ("id", Json.nat s.id),
    ("schema", .string s.schema),
    ("name", .string s.name),
    ("start", .int s.start),
    ("increment", .int s.increment),
    ("min", .int s.min),
    ("max", .int s.max),
    ("cycle", .bool s.cycle)]

def ofJson? (v : Json) : Option Sequence := do
  let fields ← v.record? ["id", "schema", "name", "start", "increment", "min", "max", "cycle"]
  let id ← fields.required "id" word?
  let schema ← fields.required "schema" string?
  let name ← fields.required "name" string?
  let start ← fields.required "start" signedWord?
  let increment ← fields.required "increment" signedWord?
  let min ← fields.required "min" signedWord?
  let max ← fields.required "max" signedWord?
  let cycle ← fields.required "cycle" bool?
  return { id, schema, name, start, increment, min, max, cycle }

end Sequence

/-- An id as the key of a map: digits without a leading zero, within eight bytes, none of
them spelled by an escape. -/
def idOfKey? (key : Key) : Option Nat :=
  let cs := key.text.toList
  let n := Text.digitsValue cs
  if key.escaped = false ∧ Text.digits n = cs ∧ n < Word.bound then some n else none

namespace OrderedMap

def toJson (write : α → Json) (m : OrderedMap α) : Json :=
  .object (m.entries.map fun e => ({ text := String.ofList (Text.digits e.1) }, write e.2))

def ofJson? (read : Json → Option α) : Json → Option (OrderedMap α)
  | .object members => do
    let entries ← members.mapM fun m => do
      let id ← idOfKey? m.1
      let value ← read m.2
      return (id, value)
    return ofList entries
  | _ => none

end OrderedMap

namespace Catalog

def toJson (c : Catalog) : Json :=
  .object [
    ("tables", c.tables.toJson Table.toJson),
    ("joins", c.joins.toJson Join.toJson),
    ("groups", c.groups.toJson Group.toJson),
    ("sequences", c.sequences.toJson Sequence.toJson),
    ("next_id", Json.nat c.nextId)]

def ofJson? (v : Json) : Option Catalog := do
  let fields ← v.record? ["tables", "joins", "groups", "sequences", "next_id"]
  let tables ← fields.required "tables" (OrderedMap.ofJson? Table.ofJson?)
  let joins ← fields.required "joins" (OrderedMap.ofJson? Join.ofJson?)
  let groups ← fields.required "groups" (OrderedMap.ofJson? Group.ofJson?)
  let sequences ← fields.required "sequences" (OrderedMap.ofJson? Sequence.ofJson?)
  let nextId ← fields.required "next_id" word?
  return { tables, joins, groups, sequences, nextId }

def stored (c : Catalog) : String := c.toJson.print

def ofStored? (text : String) : Option Catalog := (Json.parse? text).bind ofJson?

end Catalog

end GroupedTables
