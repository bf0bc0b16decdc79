import GroupedTables.Proofs.Catalog.Following
import GroupedTables.Proofs.Catalog.Trees

/-!
# Other names for the columns of a table

The columns of a table get other names everywhere: in the table, in its indexes, and in the joins
that touch it, on the side of the table. Nothing else changes. If the new names are distinct every
look-up of a column gives what it gave under the old name, so a catalog in order stays in order.
-/

namespace GroupedTables

/-- What is looked for among changed members is the change of what is looked for. -/
theorem find?_map_of_alike {α : Type} {g : α → α} {p q : α → Bool} {l : List α}
    (alike : ∀ a ∈ l, q (g a) = p a) : (l.map g).find? q = (l.find? p).map g := by
  induction l with
  | nil => rfl
  | cons a rest ih =>
    rw [List.map_cons, List.find?_cons, List.find?_cons, alike a (.head _),
      ih fun b inside => alike b (.tail _ inside)]
    cases p a <;> rfl

variable {f : String → String} {t : Table} {name : String}

/-- An index with other names for its columns. -/
def Index.relabelled (f : String → String) (i : Index) : Index :=
  { i with columns := i.columns.map fun c => { c with column := f c.column } }

@[simp] theorem Index.columnNames_relabelled (i : Index) :
    (i.relabelled f).columnNames = i.columnNames.map f := by
  simp [columnNames, relabelled]

/-- A join with other names for the columns of a table, on the side of the table. -/
def Join.relabelled (x : TableId) (f : String → String) (j : Join) : Join :=
  { j with columns := j.columns.map fun pair => {
      parent := if j.parent = x then f pair.parent else pair.parent
      child := if j.child = x then f pair.child else pair.child } }

namespace Table

/-- A table with other names for its columns. -/
def relabelled (f : String → String) (t : Table) : Table :=
  { t with
    columns := t.columns.map fun column => { column with name := f column.name }
    indexes := t.indexes.map (·.relabelled f) }

@[simp] theorem columnNames_relabelled :
    (t.relabelled f).columnNames = t.columnNames.map f := by
  simp [columnNames, relabelled]

@[simp] theorem sequenceIds_relabelled : (t.relabelled f).sequenceIds = t.sequenceIds := by
  simp only [sequenceIds, relabelled, List.filterMap_map]
  rfl

/-- The names that there are change nothing. -/
@[simp] theorem relabelled_self : (t.relabelled fun name => name) = t := by
  simp [relabelled, Index.relabelled]

theorem Positioned.relabelled (h : t.Positioned) : (t.relabelled f).Positioned := by
  unfold Positioned at h ⊢
  rw [Table.relabelled, List.map_map, List.length_map]
  exact h

/-- A column has its type under its new name, if the new names are distinct. -/
theorem typeOf?_relabelled (distinct : (t.columnNames.map f).Nodup)
    (inside : name ∈ t.columnNames) :
    (t.relabelled f).typeOf? (f name) = t.typeOf? name := by
  have alike : ∀ column ∈ t.columns, (f column.name == f name) = (column.name == name) := by
    intro column there
    rw [Bool.eq_iff_iff, beq_iff_eq, beq_iff_eq]
    exact ⟨List.inj_on_of_nodup_map distinct (List.mem_map_of_mem there) inside, congrArg f⟩
  rw [typeOf?, column?, relabelled, find?_map_of_alike alike, Option.map_map, typeOf?, column?]
  rfl

end Table

namespace Catalog

variable {c : Catalog} {x k : TableId} {i : JoinId} {j : Join} {p : Table}

/-- A catalog with other names for the columns of a table. -/
def relabelled (c : Catalog) (x : TableId) (f : String → String) : Catalog :=
  { c with
    tables := c.tables.modify x (·.relabelled f)
    joins := c.joins.map fun _ j => j.relabelled x f }

theorem get?_relabelled : (c.relabelled x f).tables.get? k =
    if k = x then (c.tables.get? k).map (·.relabelled f) else c.tables.get? k :=
  get?_editing

theorem get?_joins_relabelled :
    (c.relabelled x f).joins.get? i = (c.joins.get? i).map (·.relabelled x f) :=
  OrderedMap.get?_map ..

@[simp] theorem relabelled_self : (c.relabelled x fun name => name) = c := by
  have tables : c.tables.modify x (·.relabelled fun name => name) = c.tables :=
    OrderedMap.map_eq_self fun _ _ _ => by simp
  have joins : (c.joins.map fun _ j => j.relabelled x fun name => name) = c.joins :=
    OrderedMap.map_eq_self fun _ _ _ => by simp [Join.relabelled]
  rw [relabelled, tables, joins]

theorem Join.followed_eq_relabelled (apart : j.parent ≠ j.child) :
    (if j.touches x then j.followed x fun name => some (f name) else j) = j.relabelled x f := by
  rw [Join.touches, Join.followed, Join.relabelled]
  by_cases below : j.child = x
  · have above : j.parent ≠ x := below ▸ apart
    simp [below, above, JoinColumn.renamed, JoinColumn.name]
  · by_cases above : j.parent = x <;> simp [below, above, JoinColumn.renamed, JoinColumn.name]

theorem intact_editing_relabelled (h : c.Intact) : (c.editing x (Table.relabelled f)).Intact :=
  h.editing (fun _ => rfl) (fun _ => rfl) fun _ => rfl

/-- The joins follow other names for the columns of a table, and no join touches it twice. -/
theorem following_eq_relabelled (h : c.Intact) (acyclic : c.Acyclic) :
    (c.editing x (Table.relabelled f)).following x (fun name => some (f name)) =
      c.relabelled x f := by
  have joins : (c.joins.map fun _ j =>
      if j.touches x then j.followed x (fun name => some (f name)) else j) =
        c.joins.map fun _ j => j.relabelled x f :=
    OrderedMap.map_congr fun _ _ there =>
      Join.followed_eq_relabelled (acyclic.parent_ne_child there)
  rw [following_of_total (intact_editing_relabelled h) fun _ => rfl, relabelled, ← joins]
  rfl

theorem Intact.relabelled (h : c.Intact) (acyclic : c.Acyclic) : (c.relabelled x f).Intact := by
  rw [← following_eq_relabelled h acyclic]
  exact (intact_editing_relabelled h).following

theorem Acyclic.relabelled (h : c.Acyclic) : (c.relabelled x f).Acyclic := by
  refine h.of_hangs fun a b hangs => ?_
  obtain ⟨i, j, there, above, below⟩ := hangs_iff.1 hangs
  rw [get?_joins_relabelled] at there
  obtain ⟨j, found, rfl⟩ := Option.map_eq_some_iff.1 there
  exact hangs_iff.2 ⟨i, j, found, above, below⟩

/-- A table of the relabelled catalog is the one that was there, relabelled if it is the one that
gets other names. -/
theorem exists_of_relabelled (there : (c.relabelled x f).tables.get? k = some t) :
    ∃ u, c.tables.get? k = some u ∧ t = if k = x then u.relabelled f else u := by
  rw [get?_relabelled] at there
  split at there
  case isTrue same =>
    obtain ⟨u, found, rfl⟩ := Option.map_eq_some_iff.1 there
    exact ⟨u, found, (if_pos same).symm⟩
  case isFalse other => exact ⟨t, there, (if_neg other).symm⟩

theorem typeOf?_of_relabelled {u : Table} (found : c.tables.get? k = some u)
    (distinct : ∀ t, c.tables.get? x = some t → (t.columnNames.map f).Nodup)
    (inside : name ∈ u.columnNames) :
    (if k = x then u.relabelled f else u).typeOf? (if k = x then f name else name) =
      u.typeOf? name := by
  split
  case isTrue same =>
    subst same
    exact Table.typeOf?_relabelled (distinct u found) inside
  case isFalse => rfl

/-- Distinct new names for the columns of a table keep a catalog in order. -/
theorem WellFormed.relabelled (h : c.WellFormed)
    (distinct : ∀ t, c.tables.get? x = some t → (t.columnNames.map f).Nodup) :
    (c.relabelled x f).WellFormed := by
  refine (h.intact.relabelled h.acyclic).wellFormed ?_ ?_ ?_ ?_ ?_ h.acyclic.relabelled
  · exact h.distinctNames.editing (f := Table.relabelled f) fun _ => rfl
  · intro k t there
    obtain ⟨u, found, rfl⟩ := exists_of_relabelled there
    split
    · exact (h.positioned found).relabelled
    · exact h.positioned found
  · intro k t there s drawn
    obtain ⟨u, found, rfl⟩ := exists_of_relabelled there
    apply h.supplied found s
    split at drawn
    · rwa [Table.sequenceIds_relabelled] at drawn
    · exact drawn
  · intro k t there index inside
    obtain ⟨u, found, rfl⟩ := exists_of_relabelled there
    by_cases same : k = x
    · subst same
      rw [if_pos rfl] at inside ⊢
      obtain ⟨old, listed, rfl⟩ := List.mem_map.1 inside
      have passed := checkIndex_eq_ok.1 (h.indexed found old listed)
      rw [checkIndex_eq_ok, Index.columnNames_relabelled]
      intro name inside
      obtain ⟨name, used, rfl⟩ := List.mem_map.1 inside
      have named := Table.typeOf?_isSome_iff.1 (passed name used)
      rw [Table.typeOf?_relabelled (distinct u found) named]
      exact passed name used
    · rw [if_neg same] at inside ⊢
      exact h.indexed found index inside
  · intro i j p t there above below pair inside
    rw [get?_joins_relabelled] at there
    obtain ⟨j, joined, rfl⟩ := Option.map_eq_some_iff.1 there
    obtain ⟨p, found, rfl⟩ := exists_of_relabelled above
    obtain ⟨t, found', rfl⟩ := exists_of_relabelled below
    obtain ⟨pair, paired, rfl⟩ := List.mem_map.1 inside
    obtain ⟨upper, typed, lower, typed', fits⟩ :=
      checkPair_eq_ok.1 (h.paired joined found found' pair paired)
    have named := Table.typeOf?_isSome_iff.1 (Option.isSome_of_mem typed)
    have named' := Table.typeOf?_isSome_iff.1 (Option.isSome_of_mem typed')
    refine checkPair_eq_ok.2 ⟨upper, ?_, lower, ?_, fits⟩
    · exact (typeOf?_of_relabelled found distinct named).trans typed
    · exact (typeOf?_of_relabelled found' distinct named').trans typed'

end Catalog

end GroupedTables
