import GroupedTables.Proofs.Catalog.Columns
import GroupedTables.Proofs.Catalog.Edits

/-!
# What the edits of definitions do to a catalog

Columns, indexes and sequences are edited one at a time. What an edit refuses because of a
name that somebody gave is foreseen; the table it is about has to exist.
-/

namespace GroupedTables.Catalog

open GroupedTables.Action
open scoped Unbounded

variable {c : Catalog} {table : TableId} {t : Table} {column : Column} {name : String}
  {f : Column → Column} {index : Index} {s : SequenceId} {q : Sequence}
  {fails : Fault → Catalog → Prop}

/-- A column is added under a free name. -/
theorem wp_addColumn_of {post : Unit → Catalog → Prop} (there : c.tables.get? table = some t)
    (taken : column.name ∈ t.columnNames → fails (.duplicateColumn t.name.text column.name) c)
    (ok : column.name ∉ t.columnNames → post () (c.editing table (·.withColumn column))) :
    WP (addColumn table column) post fails c := by
  unfold addColumn
  simp only [wp_bind, wp_get, wp_lift_of_ok (table_of_get? there), wp_ite,
    Table.column?_isSome_iff, wp_throw, wp_of_ok (editTable_eq there)]
  exact ⟨taken, ok⟩

theorem wp_addColumn {post : Unit → Catalog → Prop} (there : c.tables.get? table = some t)
    (foreseen : ∀ f c, f.Foreseen → fails f c)
    (ok : column.name ∉ t.columnNames → post () (c.editing table (·.withColumn column))) :
    WP (addColumn table column) post fails c :=
  wp_addColumn_of there (fun _ => foreseen _ _ trivial) ok

theorem column_of_get? (there : c.tables.get? table = some t)
    (found : t.column? name = some column) : c.column table name = .ok column := by
  simp only [Catalog.column, table_of_get? there, found, bind, Except.bind, pure, Except.pure]

theorem wp_editColumn {post : Unit → Catalog → Prop} (there : c.tables.get? table = some t)
    (found : t.column? name = some column) :
    WP (editColumn table name f) post fails c ↔
      post () (c.editing table (·.withColumnChanged name f)) := by
  unfold editColumn
  simp only [wp_bind, wp_get, wp_lift_of_ok (column_of_get? there found),
    wp_of_ok (editTable_eq there)]

theorem wp_dropColumns {post : List Column → Catalog → Prop}
    (there : c.tables.get? table = some t) :
    WP (dropColumns table) post fails c ↔
      post t.columns (c.editing table ({ · with columns := [] })) := by
  unfold dropColumns
  simp only [wp_bind, wp_get, wp_lift_of_ok (table_of_get? there), wp_of_ok (editTable_eq there),
    wp_pure]

theorem wp_removeIndexes {post : List Index → Catalog → Prop}
    (there : c.tables.get? table = some t) :
    WP (removeIndexes table) post fails c ↔
      post t.indexes (c.editing table ({ · with indexes := [] })) := by
  unfold removeIndexes
  simp only [wp_bind, wp_get, wp_lift_of_ok (table_of_get? there), wp_of_ok (editTable_eq there),
    wp_pure]

/-- An index is added under a free name, on columns of the table. -/
theorem wp_addIndex_of {post : Unit → Catalog → Prop} (there : c.tables.get? table = some t)
    (taken : (t.index? index.name).isSome → fails (.duplicateIndex t.name.text index.name) c)
    (missing : ∀ name, t.missingColumn? index.columnNames = some name →
      fails (.noSuchColumn name) c)
    (ok : t.index? index.name = none → t.missingColumn? index.columnNames = none →
      post () (c.editing table fun t => { t with indexes := t.indexes ++ [index] })) :
    WP (addIndex table index) post fails c := by
  unfold addIndex
  simp only [wp_bind, wp_get, wp_lift_of_ok (table_of_get? there), wp_ite]
  refine ⟨taken, fun free => ?_⟩
  split
  case h_1 name first => exact missing name first
  case h_2 all =>
    rw [wp_of_ok (editTable_eq there)]
    exact ok (Option.not_isSome_iff_eq_none.1 free) (Option.eq_none_iff_forall_ne_some.2 all)

theorem wp_addIndex {post : Unit → Catalog → Prop} (there : c.tables.get? table = some t)
    (foreseen : ∀ f c, f.Foreseen → fails f c)
    (ok : post () (c.editing table fun t => { t with indexes := t.indexes ++ [index] })) :
    WP (addIndex table index) post fails c :=
  wp_addIndex_of there (fun _ => foreseen _ _ trivial) (fun _ _ => foreseen _ _ trivial)
    fun _ _ => ok

/-- The catalog with a sequence added under the next id. -/
def supplying (c : Catalog) (q : Sequence) : Catalog :=
  { c with
    sequences := c.sequences.insert (c.nextId + 1) { q with id := c.nextId + 1 }
    nextId := c.nextId + 1 }

theorem addSequence_eq : addSequence q c = .ok (c.nextId + 1) (c.supplying q) := rfl

theorem get?_sequences_supplying : (c.supplying q).sequences.get? s =
    if s = c.nextId + 1 then some { q with id := c.nextId + 1 } else c.sequences.get? s :=
  OrderedMap.get?_insert ..

theorem Intact.supplying (h : c.Intact) : (c.supplying q).Intact :=
  { h with
    tables := h.tables.mono (Nat.le_succ _)
    joins := h.joins.mono (Nat.le_succ _)
    groups := h.groups.mono (Nat.le_succ _)
    sequences := (h.sequences.mono (Nat.le_succ _)).insert rfl (Nat.le_refl _)
    hook_iff := h.hook_iff
    parent := h.parent
    shared := h.shared }

theorem Intact.unsupplied (h : c.Intact) :
    ({ c with sequences := c.sequences.erase s } : Catalog).Intact :=
  { h with
    sequences := h.sequences.erase
    hook_iff := h.hook_iff
    parent := h.parent
    shared := h.shared }

/-- A new sequence is under an id of its own. -/
theorem get?_sequences_supplying_of_get? (h : c.Numbered) {q' : Sequence}
    (there : c.sequences.get? s = some q') : (c.supplying q).sequences.get? s = some q' := by
  rw [get?_sequences_supplying, if_neg, there]
  exact Nat.ne_of_lt (Nat.lt_succ_of_le (h.sequences there).2)

theorem wp_removeSequence {post : Sequence → Catalog → Prop}
    (missing : c.sequences.get? s = none → fails (.internal (.missingSequence s)) c)
    (ok : ∀ q, c.sequences.get? s = some q →
      post q { c with sequences := c.sequences.erase s }) :
    WP (removeSequence s) post fails c := by
  unfold removeSequence
  simp only [wp_bind, wp_get, wp_lift, sequence_eq_ok_iff, wp_modify, wp_pure]
  refine ⟨fun q there => ok q there, fun f failed => ?_⟩
  cases there : c.sequences.get? s with
  | some q => rw [sequence_of_get? there] at failed; cases failed
  | none =>
    rw [sequence, there] at failed
    cases failed
    exact missing there

end GroupedTables.Catalog
