import GroupedTables.Proofs.Catalog.Joining

/-!
# Adding and removing tables

A new table comes under the next id, joined to nothing. A table that is removed is first
taken out of the tree; with it go the sequences that only it drew from, so every other table
keeps its supply.
-/

namespace GroupedTables.Catalog

open GroupedTables.Action
open scoped Unbounded

variable {c : Catalog} {k x : TableId} {i : JoinId} {s : SequenceId} {t definition : Table}
  {post : TableId → Catalog → Prop} {fails : Fault → Catalog → Prop}

def newTable (c : Catalog) (definition : Table) : Table :=
  { definition with id := c.nextId + 1, parentJoin := none, group := none }.renumbered

def created (c : Catalog) (definition : Table) : Catalog :=
  { c with
    tables := c.tables.insert (c.nextId + 1) (c.newTable definition), nextId := c.nextId + 1 }

theorem wp_createTable
    (taken : (c.tableNamed? definition.name).isSome → ∀ f, f.Foreseen → fails f c)
    (ok : c.tableNamed? definition.name = none → post (c.nextId + 1) (c.created definition)) :
    WP (createTable definition) post fails c := by
  unfold createTable requireUnused
  simp only [wp_bind, wp_get, wp_ite]
  refine ⟨fun present => taken present _ trivial, fun free => ?_⟩
  exact ok (by simpa using free)

theorem get?_created : (c.created definition).tables.get? k =
    if k = c.nextId + 1 then some (c.newTable definition) else c.tables.get? k :=
  OrderedMap.get?_insert ..

theorem columns_newTable (positioned : definition.Positioned) :
    (c.newTable definition).columns = definition.columns :=
  (congrArg Table.columns (Table.renumbered_of_positioned positioned) :)

@[simp] theorem joins_created : (c.created definition).joins = c.joins := rfl

@[simp] theorem sequences_created : (c.created definition).sequences = c.sequences := rfl

theorem hook_created (h : c.Numbered) : (c.created definition).hook k = c.hook k := by
  unfold hook
  rw [get?_created]
  split
  case isTrue same => rw [same, h.fresh_table (Nat.lt_succ_self _)]; rfl
  case isFalse => rfl

theorem groupOf_created (h : c.Numbered) : (c.created definition).groupOf k = c.groupOf k := by
  unfold groupOf
  rw [get?_created]
  split
  case isTrue same => rw [same, h.fresh_table (Nat.lt_succ_self _)]; rfl
  case isFalse => rfl

theorem get?_created_of_get? (h : c.Numbered) (there : c.tables.get? k = some t) :
    (c.created definition).tables.get? k = some t := by
  rw [get?_created, if_neg, there]
  exact Nat.ne_of_lt (Nat.lt_succ_of_le (h.tables_le there))

theorem get?_created_self : (c.created definition).tables.get? (c.nextId + 1) =
    some (c.newTable definition) := by
  rw [get?_created, if_pos rfl]

/-- A table with a free name leaves names distinct. -/
theorem DistinctNames.created (h : c.DistinctNames) (free : c.tableNamed? definition.name = none) :
    (c.created definition).DistinctNames := by
  rw [tableNamed?_eq_none_iff] at free
  intro k k' t t' there there' same
  rw [get?_created] at there there'
  split at there <;> split at there'
  case isTrue.isTrue here here' => exact here.trans here'.symm
  case isTrue.isFalse => cases there; exact absurd same.symm (free there')
  case isFalse.isTrue => cases there'; exact absurd same (free there)
  case isFalse.isFalse => exact h there there' same

theorem Intact.created (h : c.Intact) : (c.created definition).Intact where
  tables := (h.tables.mono (Nat.le_succ _)).insert rfl (Nat.le_refl _)
  joins := h.joins.mono (Nat.le_succ _)
  groups := h.groups.mono (Nat.le_succ _)
  sequences := h.sequences.mono (Nat.le_succ _)
  hook_iff k i := by rw [hook_created h.toNumbered]; exact h.hook_iff k i
  parent i j there := by
    obtain ⟨p, above⟩ := h.parent there
    exact ⟨p, get?_created_of_get? h.toNumbered above⟩
  shared i j there := by
    rw [groupOf_created h.toNumbered, groupOf_created h.toNumbered]
    exact h.shared there

theorem usesSequence_iff :
    c.usesSequence s = true ↔ ∃ k t, c.tables.get? k = some t ∧ s ∈ t.sequenceIds := by
  simp only [usesSequence, List.any_eq_true, OrderedMap.mem_values_iff, Table.sequenceIds,
    List.mem_filterMap, beq_iff_eq]
  constructor
  · rintro ⟨t, ⟨k, there⟩, column, inside, drawn⟩
    exact ⟨k, t, there, column, inside, drawn⟩
  · rintro ⟨k, t, there, column, inside, drawn⟩
    exact ⟨t, ⟨k, there⟩, column, inside, drawn⟩

/-- The catalog with a table taken out of the tree and erased. -/
def erased (c : Catalog) (x : TableId) : Catalog :=
  { c.isolated x with tables := (c.isolated x).tables.erase x }

def removed (c : Catalog) (x : TableId) (t : Table) : Catalog :=
  { c.erased x with
    sequences := ((c.erased x).orphanedSequences t).foldl OrderedMap.erase (c.erased x).sequences
    groups := (c.erased x).groups.filter fun _ group => group.root != x }

theorem orphanedSequences_congr {t' : Table} (same : t'.columns = t.columns) :
    c.orphanedSequences t' = c.orphanedSequences t := by
  rw [orphanedSequences, orphanedSequences, same]

theorem wp_removeTable {post : Table → Catalog → Prop} (h : c.Linked)
    (there : c.tables.get? x = some t) (ok : ∀ u, post u (c.removed x t)) :
    WP (removeTable x) post fails c := by
  have children : ∀ k ∈ c.children x, ∃ t, c.tables.get? k = some t :=
    fun k => h.exists_child
  have clear := wp_clearParentJoins h children
  have orphans := h.foldl_detached (c.children x)
  obtain ⟨t', there', same'⟩ := exists_of_bodies
    (foldl_keeps bodies (fun _ _ => bodies_detached) (c.children x)) there
  obtain ⟨u, found, same⟩ := exists_of_bodies (bodies_isolated (x := x)) there
  unfold removeTable
  simp only [wp_bind, wp_get, wp_lift_of_ok (table_of_get? there)]
  refine clear.mono (fun _ c' reached => ?_) fun _ _ => False.elim
  subst reached
  rw [wp_bind, wp_get, wp_bind, wp_lift_of_ok (table_of_get? there')]
  have tail : WP (do
      let t ← (← get).table x
      modify fun c => { c with tables := c.tables.erase x }
      modify fun c => { c with
        sequences := (c.orphanedSequences t).foldl OrderedMap.erase c.sequences
        groups := c.groups.filter fun _ group => group.root != x }
      return t) post fails (c.isolated x) := by
    simp only [wp_bind, wp_get, wp_lift_of_ok (table_of_get? found), wp_modify, wp_pure]
    have columns : u.columns = t.columns := by
      rw [← Table.body_columns, same, Table.body_columns]
    have reached := ok u
    rw [removed, ← orphanedSequences_congr columns] at reached
    exact reached
  rw [wp_ite]
  constructor
  · intro _
    rw [wp_bind, wp_discard, wp_of_ok (clearParentJoin_eq orphans there')]
    exact tail
  · intro root
    have off : ((c.children x).foldl detached c).hook x = none := by
      rw [hook_of_get? there']
      simpa using root
    have same : c.isolated x = (c.children x).foldl detached c := detached_of_root off
    rw [← same]
    exact tail

theorem bodies_erased : (c.erased x).bodies = c.bodies.erase x := by
  apply (OrderedMap.erase_map fun _ => Table.body).symm.trans
  exact congrArg (OrderedMap.erase · x) bodies_isolated

@[simp] theorem bodies_removed : (c.removed x t).bodies = c.bodies.erase x := bodies_erased

@[simp] theorem nextId_removed : (c.removed x t).nextId = c.nextId := nextId_isolated

theorem joins_removed (h : c.Linked) :
    (c.removed x t).joins = c.joins.filter fun _ j => j.parent != x && j.child != x :=
  joins_isolated h

theorem get?_erased (other : k ≠ x) :
    (c.erased x).tables.get? k = (c.isolated x).tables.get? k := by
  rw [erased, OrderedMap.get?_erase, if_neg other]

theorem hook_erased : (c.erased x).hook k = (c.isolated x).hook k := by
  by_cases same : k = x
  · rw [same, isolated, hook_detached, if_pos rfl, hook, erased, OrderedMap.get?_erase, if_pos rfl,
      Option.bind_none]
  · rw [hook, get?_erased same, hook]

theorem Intact.erased (h : c.Intact) : (c.erased x).Intact := by
  have off := h.isolated (x := x)
  have apart ⦃i j⦄ (there : (c.isolated x).joins.get? i = some j) :
      j.parent ≠ x ∧ j.child ≠ x := by
    rw [joins_isolated h.toLinked, OrderedMap.get?_filter, Option.filter_eq_some_iff] at there
    simpa using there.2
  refine { off with
    tables := off.tables.erase
    hook_iff := fun k i => ?_
    parent := ?_
    shared := ?_ }
  · rw [hook_erased]; exact off.hook_iff k i
  · intro i j there
    rw [get?_erased (apart there).1]
    exact off.parent there
  · intro i j there
    rw [groupOf, groupOf, get?_erased (apart there).1, get?_erased (apart there).2]
    exact off.shared there

theorem Intact.removed (h : c.Intact) : (c.removed x t).Intact :=
  have off := h.erased (x := x)
  { off with
    groups := off.groups.filter _
    sequences := off.sequences.foldl_erase _
    hook_iff := off.hook_iff
    parent := off.parent
    shared := off.shared }

theorem get?_sequences_removed : (c.removed x t).sequences.get? s =
    if s ∈ t.sequenceIds ∧ (c.removed x t).usesSequence s = false then none
    else c.sequences.get? s := by
  have uses : (c.removed x t).usesSequence s = (c.erased x).usesSequence s := rfl
  rw [uses, removed, OrderedMap.get?_foldl_erase]
  have mem : s ∈ (c.erased x).orphanedSequences t ↔
      s ∈ t.sequenceIds ∧ (c.erased x).usesSequence s = false := by
    simp [orphanedSequences, Table.sequenceIds]
  simp only [mem]
  exact congrArg (fun m => ite _ none (OrderedMap.get? m s)) sequences_isolated

/-- A sequence that is still drawn from is still there. -/
theorem get?_sequences_removed_of_uses (used : (c.removed x t).usesSequence s = true) :
    (c.removed x t).sequences.get? s = c.sequences.get? s := by
  rw [get?_sequences_removed, if_neg]
  simp [used]

end GroupedTables.Catalog
