import GroupedTables.Catalog.Tree

/-!
# Joining tables

A join hangs a child under a parent and makes pairs of their columns equal. A child takes
its whole subtree into the group of its parent, and out of every group when it leaves.
-/

namespace GroupedTables

namespace JoinColumn

def name (pair : JoinColumn) (onChildSide : Bool) : String :=
  if onChildSide then pair.child else pair.parent

/-- A pair with the column on one side renamed, as far as the column is still there. -/
def renamed (pair : JoinColumn) (onChildSide : Bool) (rename : String → Option String) :
    JoinColumn :=
  let name := (rename (pair.name onChildSide)).getD (pair.name onChildSide)
  if onChildSide then { pair with child := name } else { pair with parent := name }

end JoinColumn

namespace Catalog

/-- Puts a table and all below it into a group, or into none. -/
def assignGroup (table : TableId) (group : Option GroupId) : Edit Unit := do
  (← get).subtree table |>.forM fun member => editTable member ({ · with group })

/-- How many pairs of columns a join under a table has to have: as many as its primary key
has columns, or as many as are given if it has none. -/
def joinWidth (parent : Table) (given : Nat) : Nat :=
  match parent.primaryKey? with
  | some key => key.columns.length
  | none => given

/-- Checks that a pair names a column on both sides and that these can be compared. -/
def checkPair (parent child : Table) (pair : JoinColumn) : Except Fault Unit :=
  match parent.column? pair.parent, child.column? pair.child with
  | none, _ => .error (.noSuchColumn pair.parent)
  | _, none => .error (.noSuchColumn pair.child)
  | some p, some c =>
    if c.descriptor.compatible p.descriptor then .ok ()
    else .error (.joinTypes pair.child c.descriptor.text pair.parent p.descriptor.text)

/-- Checks that a child may be joined to a parent by pairs of columns. -/
def checkJoin (parent child : Table) (columns : List JoinColumn) : Except Fault Unit := do
  if child.parentJoin.isSome then
    throw (.secondParent child.name.text)
  let width := joinWidth parent columns.length
  if columns.isEmpty || columns.length != width then
    throw (.joinWidths child.name.text parent.name.text columns.length width)
  columns.forM (checkPair parent child)

/-- Joins a child with all below it under a parent. -/
def addJoin [Numbering] (parent child : TableId) (columns : List JoinColumn) : Edit JoinId := do
  let c ← get
  let p ← c.table parent
  let t ← c.table child
  checkJoin p t columns
  if parent == child || (c.subtree child).contains parent then
    throw (.joinCycle t.name.text p.name.text)
  let id ← allocateId
  modify fun c => { c with joins := c.joins.insert id { id, parent, child, columns } }
  editTable child ({ · with parentJoin := some id })
  assignGroup child p.group
  return id

/-- Takes a table with all below it off its parent and out of its group. -/
def clearParentJoin (table : TableId) : Edit (Option Join) := do
  match (← (← get).table table).parentJoin with
  | none => return none
  | some id =>
    editTable table ({ · with parentJoin := none })
    let removed := (← get).joins.get? id
    modify fun c => { c with joins := c.joins.erase id }
    assignGroup table none
    return removed

/-- Renames the columns of one side of a join. A join that loses a column is dissolved. -/
def remapJoin (table : TableId) (rename : String → Option String) (id : JoinId) :
    Edit (Option Join) := do
  match (← get).joins.get? id with
  | none => return none
  | some j =>
    let onChildSide := j.child == table
    let renamed := j.columns.map (·.renamed onChildSide rename)
    modify fun c => { c with joins := c.joins.modify id ({ · with columns := renamed }) }
    if j.columns.all fun pair => (rename (pair.name onChildSide)).isSome then
      return none
    else
      clearParentJoin j.child

/-- Follows a renaming of the columns of a table in the joins that touch it. A column renamed
to nothing is gone; the joins that lose one are dissolved and listed. -/
def remapJoinColumns (table : TableId) (rename : String → Option String) : Edit (List Join) := do
  let touching := (← get).joins.values.filter fun j => j.child == table || j.parent == table
  return (← (touching.map (·.id)).mapM (remapJoin table rename)).filterMap id

end Catalog

end GroupedTables
