import GroupedTables.Catalog.Grouping
import GroupedTables.Catalog.Lifecycle
import GroupedTables.Proofs.Action
import GroupedTables.Proofs.Catalog.Intact

/-!
# What the edits of places do to a catalog

Each edit that moves tables about is a function of the catalog once the tables it is given
exist. The functions are written down here with what they leave alone, and an intact
catalog is shown to stay intact under each of them.
-/

namespace GroupedTables.Catalog

open GroupedTables.Action

variable {c : Catalog} {id k x : TableId} {t : Table} {f : Table → Table}

theorem table_of_get? (there : c.tables.get? id = some t) : c.table id = .ok t := by
  rw [table, there, present]

theorem table_eq_ok_iff : c.table id = .ok t ↔ c.tables.get? id = some t := by
  unfold table
  cases c.tables.get? id <;> simp [present]

/-- Looking a table up that is not there is a broken invariant. -/
theorem wp_table {post : Table → Catalog → Prop} {fails : Fault → Catalog → Prop} :
    WP (liftM (c.table id)) post fails c ↔ (∀ t, c.tables.get? id = some t → post t c) ∧
      (c.tables.get? id = none → fails (.internal (.missingTable id)) c) := by
  simp only [wp_lift, table_eq_ok_iff]
  refine and_congr Iff.rfl ?_
  cases there : c.tables.get? id with
  | none => simp [table, there, present]
  | some t => simp [table_of_get? there]

theorem wp_table_of_none {post : Table → Catalog → Prop} {fails : Fault → Catalog → Prop}
    (missing : c.tables.get? id = none) :
    WP (liftM (c.table id)) post fails c ↔ fails (.internal (.missingTable id)) c := by
  rw [wp_table]
  simp [missing]

theorem join_of_get? {j : Join} (there : c.joins.get? id = some j) : c.join id = .ok j := by
  rw [join, there, present]

theorem join_eq_ok_iff {j : Join} : c.join id = .ok j ↔ c.joins.get? id = some j := by
  unfold join
  cases c.joins.get? id <;> simp [present]

theorem sequence_of_get? {q : Sequence} (there : c.sequences.get? id = some q) :
    c.sequence id = .ok q := by
  rw [sequence, there, present]

theorem sequence_eq_ok_iff {q : Sequence} :
    c.sequence id = .ok q ↔ c.sequences.get? id = some q := by
  unfold sequence
  cases c.sequences.get? id <;> simp [present]

theorem tableNamed_eq_ok_iff {name : TableName} :
    c.tableNamed name = .ok t ↔ c.tableNamed? name = some t := by
  unfold tableNamed
  cases c.tableNamed? name <;> simp

theorem foresees_tableNamed (c : Catalog) (name : TableName) :
    Check.Foresees (c.tableNamed name) := by
  unfold tableNamed
  split
  · exact Check.limits_ok _
  · exact Check.limits_error trivial

def editing (c : Catalog) (id : TableId) (f : Table → Table) : Catalog :=
  { c with tables := c.tables.modify id f }

theorem editTable_eq (there : c.tables.get? id = some t) :
    editTable id f c = .ok () (c.editing id f) := by
  apply eq_ok_of_wp
  unfold editTable
  simp only [wp_bind, wp_get, wp_lift_of_ok (table_of_get? there), wp_set]
  exact ⟨trivial, rfl⟩

theorem wp_editTable {post : Unit → Catalog → Prop} {fails : Fault → Catalog → Prop}
    (missing : c.tables.get? id = none → fails (.internal (.missingTable id)) c)
    (ok : ∀ t, c.tables.get? id = some t → post () (c.editing id f)) :
    WP (editTable id f) post fails c := by
  unfold editTable
  simp only [wp_bind, wp_get, wp_table, wp_set]
  exact ⟨ok, missing⟩

theorem tables_editing :
    (c.editing id f).tables = c.tables.map fun k t => if k = id then f t else t := rfl

theorem exists_editing_iff :
    (∃ t, (c.editing id f).tables.get? k = some t) ↔ ∃ t, c.tables.get? k = some t :=
  exists_map tables_editing

theorem get?_editing :
    (c.editing id f).tables.get? k =
      if k = id then (c.tables.get? k).map f else c.tables.get? k :=
  OrderedMap.get?_modify ..

theorem get?_editing_self (there : c.tables.get? id = some t) :
    (c.editing id f).tables.get? id = some (f t) := by
  rw [get?_editing, if_pos rfl, there, Option.map_some]

theorem editing_editing {g : Table → Table} :
    (c.editing id f).editing id g = c.editing id fun t => g (f t) := by
  simp only [editing, OrderedMap.modify, OrderedMap.map_map]
  congr 2
  funext k t
  split <;> rfl

/-- What counts of an edit is what becomes of the table. -/
theorem editing_congr {g : Table → Table} (there : c.tables.get? id = some t)
    (same : f t = g t) : c.editing id f = c.editing id g := by
  have tables : c.tables.modify id f = c.tables.modify id g := by
    apply OrderedMap.map_congr
    intro k u found
    split
    case isTrue equal =>
      subst equal
      cases there.symm.trans found
      exact same
    case isFalse => rfl
  rw [editing, editing, tables]

theorem editing_eq_self (there : c.tables.get? id = some t) (same : f t = t) :
    c.editing id f = c := by
  have tables : c.tables.modify id (fun t => t) = c.tables := by
    apply OrderedMap.map_eq_self
    intro k u _
    split <;> rfl
  rw [editing_congr (g := fun t => t) there same, editing, tables]

@[simp] theorem joins_editing : (c.editing id f).joins = c.joins := rfl

@[simp] theorem groups_editing : (c.editing id f).groups = c.groups := rfl

@[simp] theorem sequences_editing : (c.editing id f).sequences = c.sequences := rfl

@[simp] theorem nextId_editing : (c.editing id f).nextId = c.nextId := rfl

theorem hook_editing (same : ∀ t, (f t).parentJoin = t.parentJoin) :
    (c.editing id f).hook k = c.hook k := by
  apply hook_map tables_editing
  intro t _
  split
  · exact same t
  · rfl

/-- A change of the place alone is no change of the bodies. -/
theorem bodies_editing_of_same (same : ∀ t, (f t).body = t.body) :
    (c.editing id f).bodies = c.bodies := by
  simp only [bodies, editing, OrderedMap.modify, OrderedMap.map_map]
  apply OrderedMap.map_congr
  intro k t _
  split
  · exact same t
  · rfl

theorem Numbered.editing (h : c.Numbered) (same : ∀ t, (f t).id = t.id) :
    (c.editing id f).Numbered :=
  ⟨h.tables.modify same, h.joins, h.groups, h.sequences⟩

theorem Linked.editing (h : c.Linked) (same : ∀ t, (f t).parentJoin = t.parentJoin) :
    (c.editing id f).Linked := by
  apply h.map tables_editing rfl
  intro k t _
  split
  · exact same t
  · rfl

theorem Shared.editing (h : c.Shared) (same : ∀ t, (f t).group = t.group) :
    (c.editing id f).Shared := by
  apply h.map tables_editing rfl
  intro k t _
  split
  · exact same t
  · rfl

/-- Changing a table but neither its id nor its place keeps a catalog intact. -/
theorem Intact.editing (h : c.Intact) (ids : ∀ t, (f t).id = t.id)
    (parents : ∀ t, (f t).parentJoin = t.parentJoin) (groups : ∀ t, (f t).group = t.group) :
    (c.editing id f).Intact :=
  { h.toNumbered.editing ids, h.toLinked.editing parents with shared := h.shared.editing groups }

/-- The catalog with some tables put into a group, or into none. -/
def inGroup (c : Catalog) (members : List TableId) (group : Option GroupId) : Catalog :=
  { c with tables := c.tables.map fun k t => if k ∈ members then { t with group } else t }

variable {members : List TableId} {group : Option GroupId}

theorem foldl_modify_group (tables : OrderedMap Table) :
    members.foldl (fun tables member => tables.modify member ({ · with group })) tables =
      tables.map fun k t => if k ∈ members then { t with group } else t :=
  OrderedMap.foldl_modify (f := fun t : Table => { t with group }) (fun _ => rfl) members

theorem assignGroup_eq (there : ∀ k ∈ c.subtree x, ∃ t, c.tables.get? k = some t) :
    assignGroup x group c = .ok () (c.inGroup (c.subtree x) group) := by
  have loop (members : List TableId) (c : Catalog)
      (there : ∀ k ∈ members, ∃ t, c.tables.get? k = some t) :
      WP (members.forM fun member => editTable member fun t => { t with group })
        (fun _ c' => c' = { c with
          tables := members.foldl (fun tables k => tables.modify k ({ · with group })) c.tables })
        (fun _ _ => False) c := by
    induction members generalizing c with
    | nil => rfl
    | cons first rest ih =>
      obtain ⟨t, found⟩ := there first (.head _)
      rw [List.forM, wp_bind, wp_of_ok (editTable_eq found)]
      exact ih _ fun k inside => exists_editing_iff.2 (there k (.tail _ inside))
  apply eq_ok_of_wp
  unfold assignGroup
  simp only [wp_bind, wp_get]
  refine (loop _ _ there).mono_post fun _ c' same => ⟨trivial, ?_⟩
  rw [same, foldl_modify_group]
  rfl

theorem tables_inGroup : (c.inGroup members group).tables =
    c.tables.map fun k t => if k ∈ members then { t with group } else t := rfl

@[simp] theorem joins_inGroup : (c.inGroup members group).joins = c.joins := rfl

@[simp] theorem groups_inGroup : (c.inGroup members group).groups = c.groups := rfl

@[simp] theorem sequences_inGroup : (c.inGroup members group).sequences = c.sequences := rfl

@[simp] theorem nextId_inGroup : (c.inGroup members group).nextId = c.nextId := rfl

@[simp] theorem bodies_inGroup : (c.inGroup members group).bodies = c.bodies := by
  simp only [bodies, inGroup, OrderedMap.map_map]
  apply OrderedMap.map_congr
  intro k t _
  split <;> rfl

@[simp] theorem hook_inGroup : (c.inGroup members group).hook k = c.hook k :=
  hook_map tables_inGroup fun t _ => by split <;> rfl

theorem groupOf_inGroup (there : ∃ t, c.tables.get? k = some t) :
    (c.inGroup members group).groupOf k = if k ∈ members then group else c.groupOf k := by
  obtain ⟨t, there⟩ := there
  rw [groupOf, inGroup, OrderedMap.get?_map, there]
  simp only [Option.map_some, Option.bind_some, groupOf_of_get? there]
  split <;> rfl

theorem Numbered.inGroup (h : c.Numbered) : (c.inGroup members group).Numbered :=
  ⟨h.tables.map fun k t _ => by split <;> rfl, h.joins, h.groups, h.sequences⟩

theorem Linked.inGroup (h : c.Linked) : (c.inGroup members group).Linked :=
  h.map tables_inGroup rfl fun k t _ => by split <;> rfl

/-- Putting a whole tree into the group of its parent leaves no join between groups, if there
was none outside of the tree. -/
theorem Linked.shared_inGroup {root : TableId} (h : c.Linked)
    (own : ∀ ⦃i j⦄, c.joins.get? i = some j → j.child = root →
      j.parent ∉ c.subtree root ∧ c.groupOf j.parent = group)
    (outside : ∀ ⦃i j⦄, c.joins.get? i = some j → j.child ≠ root → j.parent ∉ c.subtree root →
      c.groupOf j.child = c.groupOf j.parent) :
    (c.inGroup (c.subtree root) group).Shared := by
  intro i j there
  obtain ⟨t, child, _⟩ := h.child there
  rw [groupOf_inGroup ⟨t, child⟩, groupOf_inGroup (h.parent there)]
  by_cases same : j.child = root
  · obtain ⟨above, grouped⟩ := own there same
    rw [if_pos (same ▸ self_mem_subtree), if_neg above, grouped]
  · simp only [← h.parent_mem_subtree_iff there same]
    split
    · rfl
    · exact outside there same ‹_›

end GroupedTables.Catalog
