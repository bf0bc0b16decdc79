import GroupedTables.Catalog.Tree

/-!
# Groups

The tables under one root form a group. Grouping can be made up from the joins alone, so it
is done afresh after a change rather than kept up by every edit.
-/

namespace GroupedTables.Catalog

/-- The tables of a group, parents before children. -/
def groupTables (c : Catalog) (id : GroupId) : List TableId :=
  match c.groups.get? id with
  | some group => c.subtree group.root
  | none => []

def ownGroup? (c : Catalog) (root : TableId) : Option GroupId :=
  ((c.tables.get? root).bind (·.group)).filter fun id =>
    (c.groups.get? id).any fun group => group.root == root

/-- The catalog with a group for a root that has none, and the group of the root. -/
def ensureGroup [Numbering] (c : Catalog) (root : TableId) : GroupId × Catalog :=
  match c.ownGroup? root with
  | some id => (id, c)
  | none =>
    let id := Numbering.next c.nextId
    let name := ((c.tables.get? root).map (·.name.name)).getD ""
    (id, { c with groups := c.groups.insert id { id, name, root }, nextId := id })

/-- Puts the tree under a root into the group of the root. -/
def groupTree [Numbering] (c : Catalog) (root : TableId) : Catalog :=
  let (id, c) := c.ensureGroup root
  { c with
    tables := (c.subtree root).foldl
      (fun tables member => tables.modify member ({ · with group := some id })) c.tables }

def isLiveGroup (c : Catalog) (id : GroupId) (group : Group) : Bool :=
  (c.tables.get? group.root).any fun root => root.group == some id && root.isRoot

/-- Puts every tree into the group of its root and removes the groups that are left over. A
root that is the root of its group stays in it; any other gets a group with its own name. -/
def regrouped [Numbering] (c : Catalog) : Catalog :=
  let roots := (c.tables.values.filter (·.isRoot)).map (·.id)
  let c := roots.foldl groupTree c
  { c with groups := c.groups.filter c.isLiveGroup }

def regroup [Numbering] : Edit Unit := modify regrouped

end GroupedTables.Catalog
