import GroupedTables.Catalog.Consistency
import GroupedTables.Catalog.Definition
import GroupedTables.Proofs.Catalog.Subtree

/-!
# Catalogs whose parts fit together

A table is a body, its name with its columns and its indexes, and a place in a tree. The
places are told twice, by the joins and by the tables that name them, and a third time by
the groups. A catalog is intact if the three agree and every entity is under its id. Trees
need not be free of circles for that: edits look at one join at a time, and so does this.

All that is said of a change to a catalog is said of its bodies, its joins, its sequences
and its counter; of the rest it is enough that the catalog stays intact.
-/

namespace GroupedTables

namespace Table

/-- The table without its place in a tree. -/
def body (t : Table) : Table := { t with parentJoin := none, group := none }

def sequenceIds (t : Table) : List SequenceId := t.columns.filterMap (·.identity)

def typeOf? (t : Table) (name : String) : Option TypeDescriptor :=
  (t.column? name).map (·.descriptor)

/-- Every column carries the position it stands at. -/
def Positioned (t : Table) : Prop := t.columns.map (·.position) = List.range t.columns.length

@[simp] theorem body_id (t : Table) : t.body.id = t.id := rfl

@[simp] theorem body_name (t : Table) : t.body.name = t.name := rfl

@[simp] theorem body_columns (t : Table) : t.body.columns = t.columns := rfl

@[simp] theorem body_indexes (t : Table) : t.body.indexes = t.indexes := rfl

@[simp] theorem body_sequenceIds (t : Table) : t.body.sequenceIds = t.sequenceIds := rfl

@[simp] theorem body_typeOf? (t : Table) : t.body.typeOf? = t.typeOf? := rfl

@[simp] theorem body_body (t : Table) : t.body.body = t.body := rfl

theorem positioned_iff {t : Table} :
    t.Positioned ↔ ∀ (i : Nat) (column : Column), t.columns[i]? = some column →
      column.position = i := by
  constructor
  · intro h i column there
    have same := congrArg (·[i]?) h
    obtain ⟨inside, rfl⟩ := List.getElem?_eq_some_iff.1 there
    simpa [inside] using same
  · intro h
    apply List.ext_getElem (by simp)
    intro i inside _
    rw [List.length_map] at inside
    simpa using h i t.columns[i] (List.getElem?_eq_getElem inside)

theorem positioned_of_columns {t u : Table} (h : t.Positioned) (same : u.columns = t.columns) :
    u.Positioned := by
  unfold Positioned
  rw [same]
  exact h

/-- A table whose columns stand at their positions is not changed by numbering them anew. -/
theorem renumbered_of_positioned {t : Table} (h : t.Positioned) : t.renumbered = t := by
  have same : t.columns.mapIdx (fun position column => { column with position }) = t.columns := by
    apply List.ext_getElem (by simp)
    intro i _ inside
    have here := positioned_iff.1 h i t.columns[i] (List.getElem?_eq_getElem inside)
    rw [List.getElem_mapIdx]
    generalize t.columns[i] = column at here
    subst here
    rfl
  rw [renumbered, same]

end Table

namespace Catalog

variable {c c' : Catalog} {i k : Nat} {j : Join} {t : Table} {f : Nat → Table → Table}

/-- The tables without their places in the trees. -/
def bodies (c : Catalog) : OrderedMap Table := c.tables.map fun _ t => t.body

/-- The join that a table names as its parent join. -/
def hook (c : Catalog) (table : TableId) : Option JoinId :=
  (c.tables.get? table).bind (·.parentJoin)

def groupOf (c : Catalog) (table : TableId) : Option GroupId :=
  (c.tables.get? table).bind (·.group)

theorem get?_bodies : c.bodies.get? k = (c.tables.get? k).map Table.body :=
  OrderedMap.get?_map ..

theorem get?_bodies_eq_some {b : Table} :
    c.bodies.get? k = some b ↔ ∃ t, c.tables.get? k = some t ∧ t.body = b := by
  rw [get?_bodies, Option.map_eq_some_iff]

/-- Catalogs with the same bodies have the same tables, up to their places. -/
theorem exists_of_bodies (same : c'.bodies = c.bodies) (there : c.tables.get? k = some t) :
    ∃ t', c'.tables.get? k = some t' ∧ t'.body = t.body :=
  get?_bodies_eq_some.1 (same ▸ get?_bodies_eq_some.2 ⟨t, there, rfl⟩)

theorem hook_of_get? (there : c.tables.get? k = some t) : c.hook k = t.parentJoin := by
  rw [hook, there, Option.bind_some]

theorem isRoot_iff_hook (there : c.tables.get? k = some t) : t.isRoot = true ↔ c.hook k = none := by
  rw [hook_of_get? there, Table.isRoot, Option.isNone_iff_eq_none]

theorem groupOf_of_get? (there : c.tables.get? k = some t) : c.groupOf k = t.group := by
  rw [groupOf, there, Option.bind_some]

theorem exists_of_hook (h : c.hook k = some i) :
    ∃ t, c.tables.get? k = some t ∧ t.parentJoin = some i :=
  Option.bind_eq_some_iff.1 h

theorem hook_map (tables : c'.tables = c.tables.map f)
    (same : ∀ t, c.tables.get? k = some t → (f k t).parentJoin = t.parentJoin) :
    c'.hook k = c.hook k := by
  unfold hook
  rw [tables, OrderedMap.get?_map]
  cases there : c.tables.get? k with
  | none => rfl
  | some t => exact same t there

theorem groupOf_map (tables : c'.tables = c.tables.map f)
    (same : ∀ t, c.tables.get? k = some t → (f k t).group = t.group) :
    c'.groupOf k = c.groupOf k := by
  unfold groupOf
  rw [tables, OrderedMap.get?_map]
  cases there : c.tables.get? k with
  | none => rfl
  | some t => exact same t there

theorem exists_map (tables : c'.tables = c.tables.map f) :
    (∃ t, c'.tables.get? k = some t) ↔ ∃ t, c.tables.get? k = some t := by
  rw [tables, OrderedMap.get?_map]
  cases c.tables.get? k <;> simp

/-- Every table and every join is under its id, whatever the counter says. -/
structure Addressed (c : Catalog) : Prop where
  tables : ∀ ⦃k t⦄, c.tables.get? k = some t → t.id = k
  joins : ∀ ⦃i j⦄, c.joins.get? i = some j → j.id = i

/-- Every entity is under its id, and no id is above the counter. -/
structure Numbered (c : Catalog) : Prop where
  tables : c.tables.Keyed Table.id c.nextId
  joins : c.joins.Keyed Join.id c.nextId
  groups : c.groups.Keyed Group.id c.nextId
  sequences : c.sequences.Keyed Sequence.id c.nextId

/-- The joins and the tables that name them tell of the same trees. -/
structure Linked (c : Catalog) : Prop where
  hook_iff : ∀ k i, c.hook k = some i ↔ ∃ j, c.joins.get? i = some j ∧ j.child = k
  parent : ∀ ⦃i j⦄, c.joins.get? i = some j → ∃ p, c.tables.get? j.parent = some p

/-- Joined tables are in one group. -/
def Shared (c : Catalog) : Prop :=
  ∀ ⦃i j⦄, c.joins.get? i = some j → c.groupOf j.child = c.groupOf j.parent

/-- The parts of a catalog fit together. -/
structure Intact (c : Catalog) : Prop extends Numbered c, Linked c where
  shared : c.Shared

/-- Every column that is generated has its sequence. -/
def Supplied (c : Catalog) : Prop :=
  ∀ ⦃k t⦄, c.tables.get? k = some t → ∀ s ∈ t.sequenceIds, ∃ q, c.sequences.get? s = some q

/-- No two tables have one name. -/
def DistinctNames (c : Catalog) : Prop :=
  ∀ ⦃k k' t t'⦄, c.tables.get? k = some t → c.tables.get? k' = some t' → t.name = t'.name → k = k'

instance (c : Catalog) : Decidable c.Addressed :=
  decidable_of_iff
    ((∀ e ∈ c.tables.entries, e.2.id = e.1) ∧ ∀ e ∈ c.joins.entries, e.2.id = e.1)
    ⟨fun ⟨tables, joins⟩ => ⟨fun _ _ there => tables _ (OrderedMap.get?_eq_some_iff.1 there),
        fun _ _ there => joins _ (OrderedMap.get?_eq_some_iff.1 there)⟩,
      fun ⟨tables, joins⟩ => ⟨fun _ inside => tables (OrderedMap.get?_eq_some_iff.2 inside),
        fun _ inside => joins (OrderedMap.get?_eq_some_iff.2 inside)⟩⟩

instance (c : Catalog) : Decidable c.Numbered :=
  decidable_of_iff (c.tables.Keyed Table.id c.nextId ∧ c.joins.Keyed Join.id c.nextId ∧
      c.groups.Keyed Group.id c.nextId ∧ c.sequences.Keyed Sequence.id c.nextId)
    ⟨fun ⟨tables, joins, groups, sequences⟩ => ⟨tables, joins, groups, sequences⟩,
      fun ⟨tables, joins, groups, sequences⟩ => ⟨tables, joins, groups, sequences⟩⟩

namespace Numbered

variable (h : c.Numbered)

include h

theorem addressed : c.Addressed :=
  ⟨fun _ _ there => (h.tables there).1, fun _ _ there => (h.joins there).1⟩

theorem id_eq (there : c.tables.get? k = some t) : t.id = k := (h.tables there).1

theorem get?_of_mem (inside : t ∈ c.tables.values) : c.tables.get? t.id = some t := by
  obtain ⟨k, there⟩ := OrderedMap.mem_values_iff.1 inside
  rw [h.id_eq there, there]

theorem get?_join_of_mem (inside : j ∈ c.joins.values) : c.joins.get? j.id = some j := by
  obtain ⟨k, there⟩ := OrderedMap.mem_values_iff.1 inside
  rw [(h.joins there).1, there]

theorem get?_of_tableNamed? {name : TableName} (found : c.tableNamed? name = some t) :
    c.tables.get? t.id = some t ∧ t.name = name :=
  ⟨h.get?_of_mem (List.mem_of_find?_eq_some found), by simpa using List.find?_some found⟩

/-- Nothing is under an id that was not given away. -/
theorem fresh_table (above : c.nextId < k) : c.tables.get? k = none := h.tables.fresh above

theorem tables_le (there : c.tables.get? k = some t) : k ≤ c.nextId := (h.tables there).2

end Numbered

theorem DistinctNames.tableNamed? (h : c.DistinctNames) (numbered : c.Numbered)
    (there : c.tables.get? k = some t) : c.tableNamed? t.name = some t := by
  have inside := OrderedMap.mem_values there
  cases found : c.tableNamed? t.name with
  | none =>
    have unnamed := List.find?_eq_none.1 found t inside
    simp at unnamed
  | some u =>
    obtain ⟨there', named⟩ := numbered.get?_of_tableNamed? found
    have same := h there' there named
    rw [same, there] at there'
    exact there'.symm

theorem tableNamed?_eq_none_iff {name : TableName} :
    c.tableNamed? name = none ↔ ∀ ⦃k t⦄, c.tables.get? k = some t → t.name ≠ name := by
  simp only [tableNamed?, List.find?_eq_none, OrderedMap.mem_values_iff, beq_iff_eq,
    forall_exists_index]
  exact forall_comm

namespace Linked

variable (h : c.Linked)

include h

theorem hook_child (there : c.joins.get? i = some j) : c.hook j.child = some i :=
  (h.hook_iff _ _).2 ⟨j, there, rfl⟩

theorem child (there : c.joins.get? i = some j) :
    ∃ t, c.tables.get? j.child = some t ∧ t.parentJoin = some i :=
  exists_of_hook (h.hook_child there)

/-- A table hangs on one join. -/
theorem join_unique {i' : JoinId} {j' : Join} (there : c.joins.get? i = some j)
    (there' : c.joins.get? i' = some j') (same : j.child = j'.child) : i = i' ∧ j = j' := by
  have ids : i = i' :=
    Option.some.inj ((h.hook_child there).symm.trans (same ▸ h.hook_child there'))
  subst ids
  exact ⟨rfl, Option.some.inj (there.symm.trans there')⟩

theorem no_join_of_hook (off : c.hook k = none) (there : c.joins.get? i = some j) :
    j.child ≠ k := by
  rintro rfl
  simp [h.hook_child there] at off

/-- Below a table that exists are tables that exist. -/
theorem exists_of_mem_subtree {root : TableId} (there : ∃ t, c.tables.get? root = some t)
    (inside : k ∈ c.subtree root) : ∃ t, c.tables.get? k = some t := by
  by_cases same : k = root
  · exact same ▸ there
  · obtain ⟨j, listed, rfl, _⟩ := exists_join_of_mem_subtree inside same
    obtain ⟨i, found⟩ := OrderedMap.mem_values_iff.1 listed
    obtain ⟨t, there, _⟩ := h.child found
    exact ⟨t, there⟩

/-- A join is in a subtree with both ends or with neither, unless the root of the subtree
hangs on it. -/
theorem parent_mem_subtree_iff {root : TableId} (there : c.joins.get? i = some j)
    (other : j.child ≠ root) : j.parent ∈ c.subtree root ↔ j.child ∈ c.subtree root := by
  refine ⟨child_mem_subtree (OrderedMap.mem_values there), fun inside => ?_⟩
  obtain ⟨j', listed, same, above⟩ := exists_join_of_mem_subtree inside other
  obtain ⟨i', there'⟩ := OrderedMap.mem_values_iff.1 listed
  rw [(h.join_unique there there' same.symm).2]
  exact above

/-- Changing tables but not the joins they name keeps the trees. -/
theorem map (tables : c'.tables = c.tables.map f) (joins : c'.joins = c.joins)
    (same : ∀ k t, c.tables.get? k = some t → (f k t).parentJoin = t.parentJoin) : c'.Linked where
  hook_iff k i := by rw [hook_map tables (same k), joins]; exact h.hook_iff k i
  parent i j there := by rw [exists_map tables]; exact h.parent (joins ▸ there)

end Linked

theorem Shared.map (h : c.Shared) (tables : c'.tables = c.tables.map f)
    (joins : c'.joins = c.joins)
    (same : ∀ k t, c.tables.get? k = some t → (f k t).group = t.group) : c'.Shared := by
  intro i j there
  rw [groupOf_map tables (same _), groupOf_map tables (same _)]
  exact h (joins ▸ there)

theorem Supplied.congr (h : c.Supplied) (bodies : c'.bodies = c.bodies)
    (sequences : c'.sequences = c.sequences) : c'.Supplied := by
  intro k t there s drawn
  obtain ⟨t', there', same⟩ := exists_of_bodies bodies.symm there
  rw [sequences]
  apply h there' s
  rw [← Table.body_sequenceIds, same]
  exact drawn

end Catalog

end GroupedTables
