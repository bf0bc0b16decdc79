import GroupedTables.Proofs.Alter.Commit
import GroupedTables.Proofs.Catalog.Renaming

/-!
# A new table in the place of an old one

Where names are swapped, the table as it is to be comes under a new id, the old table is
removed, and the new one takes over its name. A new table that was added and is given up
again leaves nothing behind but the counter.
-/

namespace GroupedTables

open GroupedTables.Action Catalog Memory
open scoped Unbounded

variable {live staged : Catalog} {current d t : Table} {target : Staged}
  {temporary : TableName} {config : Config} {definition : Table}

namespace Catalog

/-- The catalog with a new table in the place and under the name of another one. -/
def replaced (live : Catalog) (current definition : Table) : Catalog :=
  (((live.created definition).removed current.id current).renamed (live.nextId + 1)
    current.name).regrouped

variable (wf : live.WellFormed) (found : live.tables.get? current.id = some current)

include wf found

theorem ne_fresh_of_found : current.id ≠ live.nextId + 1 :=
  Nat.ne_of_lt (Nat.lt_succ_of_le (wf.numbered.tables_le found))

theorem found_created : (live.created definition).tables.get? current.id = some current :=
  get?_created_of_get? wf.numbered found

omit found in
/-- No join touches what is not there yet. -/
theorem ends_ne_fresh {i : JoinId} {j : Join} (there : live.joins.get? i = some j) :
    j.parent ≠ live.nextId + 1 ∧ j.child ≠ live.nextId + 1 := by
  have absent := wf.numbered.fresh_table (Nat.lt_succ_self live.nextId)
  obtain ⟨p, above⟩ := wf.intact.parent there
  obtain ⟨v, below, _⟩ := wf.intact.toLinked.child there
  exact ⟨fun same => by simp [same, absent] at above, fun same => by simp [same, absent] at below⟩

omit wf found in
theorem get?_bodies_removed_created {k : TableId} :
    ((live.created definition).removed current.id current).bodies.get? k =
      if k = current.id then none else (live.created definition).bodies.get? k := by
  rw [bodies_removed, OrderedMap.get?_erase]

/-- The new table stays when the old one is removed. -/
theorem exists_removed_created :
    ∃ t, ((live.created d).removed current.id current).tables.get? (live.nextId + 1) = some t ∧
      t.body = (live.newTable d).body :=
  get?_bodies_eq_some.1 <| get?_bodies_removed_created.trans <|
    (if_neg (ne_fresh_of_found wf found).symm).trans <|
      get?_bodies_eq_some.2 ⟨_, get?_created_self, rfl⟩

/-- Once the old table is removed its name is free. -/
theorem tableNamed?_removed_created (free : live.tableNamed? definition.name = none) :
    ((live.created definition).removed current.id current).tableNamed? current.name = none := by
  refine tableNamed?_eq_none_iff.2 fun k t there same => ?_
  have body := get?_bodies_removed_created.symm.trans (get?_bodies_eq_some.2 ⟨t, there, rfl⟩)
  split at body
  · cases body
  case isFalse other =>
    obtain ⟨u, there', same'⟩ := get?_bodies_eq_some.1 body
    have named : u.name = current.name := (congrArg Table.name same' : u.body.name = _).trans same
    exact other (wf.distinctNames.created free there' (found_created wf found) named)

omit found in
theorem get?_joins_replaced {i : JoinId} {j : Join} :
    (live.replaced current definition).joins.get? i = some j ↔
      live.joins.get? i = some j ∧ j.parent ≠ current.id ∧ j.child ≠ current.id := by
  rw [replaced, joins_regrouped, joins_renamed, joins_removed wf.intact.created.toLinked,
    joins_created, OrderedMap.get?_filter, Option.filter_eq_some_iff]
  simp

omit wf found in
theorem get?_bodies_replaced {k : TableId} (other : k ≠ live.nextId + 1) :
    (live.replaced current definition).bodies.get? k =
      if k = current.id then none else live.bodies.get? k := by
  rw [replaced, bodies_regrouped, get?_bodies, get?_renamed_of_ne other, ← get?_bodies,
    get?_bodies_removed_created, get?_bodies, get?_created, if_neg other, get?_bodies]

/-- The new table has its columns and indexes, and the name of the old one. -/
theorem exists_replaced (positioned : definition.Positioned) :
    ∃ t, (live.replaced current definition).tables.get? (live.nextId + 1) = some t ∧
      t.name = current.name ∧ t.indexes = definition.indexes ∧ t.columns = definition.columns := by
  obtain ⟨t, there, same⟩ := exists_removed_created (d := definition) wf found
  obtain ⟨u, itself, same'⟩ := exists_of_bodies (bodies_regrouped (c := ((live.created
    definition).removed current.id current).renamed (live.nextId + 1) current.name))
    (get?_renamed_self there)
  refine ⟨u, itself, (congrArg Table.name same' :), ?_, ?_⟩
  · exact (congrArg Table.indexes same' :).trans (congrArg Table.indexes same :)
  · rw [← columns_newTable (c := live) positioned]
    exact (congrArg Table.columns same' :).trans (congrArg Table.columns same :)

omit wf found in
/-- A sequence that is drawn from is a live one. -/
theorem get?_sequences_replaced {s : SequenceId}
    (used : (live.replaced current definition).usesSequence s = true) :
    (live.replaced current definition).sequences.get? s = live.sequences.get? s := by
  rw [replaced, moved_regrouped.usesSequence_eq, Catalog.renamed,
    usesSequence_map tables_editing fun k t => by split <;> rfl] at used
  rw [replaced, sequences_regrouped, sequences_renamed, get?_sequences_removed_of_uses used,
    sequences_created]

omit wf found in
theorem get?_sequences_of_replaced {s : SequenceId} {q : Sequence}
    (there : (live.replaced current definition).sequences.get? s = some q) :
    live.sequences.get? s = some q := by
  rw [replaced, sequences_regrouped, sequences_renamed, get?_sequences_removed] at there
  split at there
  · cases there
  · exact there

omit found in
/-- A table that is left draws from sequences that are left. -/
theorem supplied_replaced {k : TableId} (other : k ≠ live.nextId + 1)
    (there : (live.replaced current definition).tables.get? k = some t) :
    ∀ s ∈ t.sequenceIds, ∃ q, (live.replaced current definition).sequences.get? s = some q := by
  intro s drawn
  rw [get?_sequences_replaced (usesSequence_iff.2 ⟨k, t, there, drawn⟩)]
  have body := (get?_bodies_replaced other).symm.trans (get?_bodies_eq_some.2 ⟨t, there, rfl⟩)
  split at body
  · cases body
  obtain ⟨l, listed, same⟩ := get?_bodies_eq_some.1 body
  rw [← Table.body_sequenceIds, ← same, Table.body_sequenceIds] at drawn
  exact wf.supplied listed s drawn

/-- No sequence is left behind: what only the old table drew from is removed with it. -/
theorem spent_replaced (spent : live.Spent) : (live.replaced current definition).Spent :=
  ((spent.created wf.numbered).removed (found_created wf found)).renamed.move moved_regrouped

/-- After the swap the new table stands in its place. -/
theorem placed_replaced {names : List String} (drafted : Drafted live current names d) :
    Placed live staged current d (live.nextId + 1)
      (live.replaced current { d with name := temporary }) := by
  have intact : ((live.created { d with name := temporary }).removed current.id current).Intact :=
    wf.intact.created.removed
  have counter : live.nextId ≤ (live.replaced current { d with name := temporary }).nextId := by
    refine Nat.le_trans (Nat.le_succ _) (Nat.le_trans (Nat.le_of_eq ?_) nextId_le_regrouped)
    rw [nextId_renamed, nextId_removed]
    rfl
  have positioned : Table.Positioned { d with name := temporary } := drafted.positioned
  obtain ⟨u, itself, title, indexes, columns⟩ := exists_replaced wf found positioned
  have left ⦃i : JoinId⦄ ⦃j : Join⦄ (there : (live.replaced current
      { d with name := temporary }).joins.get? i = some j) : live.joins.get? i = some j :=
    ((get?_joins_replaced wf).1 there).1
  have tended : Tended live d (live.nextId + 1) ((identities d).map (·.1))
      (live.replaced current { d with name := temporary }) := by
    refine .of_columns (fun t there => ?_)
      (fun s q there => (wf.numbered.sequences (get?_sequences_of_replaced there)).2)
      fun s planned => ?_
    · cases itself.symm.trans there
      exact columns
    · refine get?_sequences_replaced (usesSequence_iff.2 ⟨_, u, itself, ?_⟩)
      rw [Table.sequenceIds, columns]
      exact planned
  refine ⟨⟨intact.renamed.regrouped, wf.acyclic.mono left, counter,
    ⟨u, itself, title, indexes, ?_⟩, fun k other => get?_bodies_replaced other,
    fun i j _ _ => get?_joins_replaced wf, fun k t other there => supplied_replaced wf other there,
    tended⟩, ⟨u, itself, columns⟩, fun i j there => ends_ne_fresh wf (left there),
    .inr (wf.numbered.fresh_table (Nat.lt_succ_self live.nextId))⟩
  rw [columns]
  exact adopting_identities

/-- A table that was added and removed again leaves nothing behind but the counter, if it drew
from no sequence that a live table does not draw from. -/
theorem regrouped_removed_created (grouped : live.regrouped = live)
    (drawn : ∀ s ∈ definition.sequenceIds, s ∈ current.sequenceIds ∨ live.nextId < s)
    (same : t.columns = definition.columns) :
    ((live.created definition).removed (live.nextId + 1) t).regrouped =
      { live with nextId := live.nextId + 1 } := by
  have absent := wf.numbered.fresh_table (Nat.lt_succ_self live.nextId)
  -- the new table is joined to nothing, so taking it out of the tree changes nothing
  have children : (live.created definition).children (live.nextId + 1) = [] := by
    rw [List.eq_nil_iff_forall_not_mem]
    intro y below
    obtain ⟨j, listed, above, _⟩ := mem_children.1 below
    obtain ⟨i, there⟩ := OrderedMap.mem_values_iff.1 listed
    exact (ends_ne_fresh wf there).1 above
  have root : (live.created definition).hook (live.nextId + 1) = none := by
    rw [hook_created wf.numbered, hook, absent, Option.bind_none]
  have isolated :
      (live.created definition).isolated (live.nextId + 1) = live.created definition := by
    rw [Catalog.isolated, children, List.foldl_nil, detached_of_root root]
  have erased : (live.created definition).erased (live.nextId + 1) =
      { live with nextId := live.nextId + 1 } := by
    rw [Catalog.erased, isolated, created, OrderedMap.insert_of_fresh absent,
      OrderedMap.erase_append absent]
  have sequences : (({ live with nextId := live.nextId + 1 } : Catalog).orphanedSequences t).foldl
      OrderedMap.erase live.sequences = live.sequences := by
    apply OrderedMap.foldl_erase_of_fresh
    intro s orphaned
    obtain ⟨listed, unused⟩ := List.mem_filter.1 orphaned
    rw [same] at listed
    obtain old | new := drawn s listed
    · have used : live.usesSequence s = true := usesSequence_iff.2 ⟨current.id, current, found, old⟩
      have unused : (!live.usesSequence s) = true := unused
      rw [used] at unused
      cases unused
    · exact wf.numbered.sequences.fresh new
  have groups :
      live.groups.filter (fun _ group => group.root != live.nextId + 1) = live.groups := by
    refine OrderedMap.filter_eq_self fun id group there => bne_iff_ne.2 fun same => ?_
    obtain ⟨u, there'⟩ := exists_root_of_regrouped grouped there
    rw [same, absent] at there'
    cases there'
  rw [removed, erased]
  dsimp only
  rw [sequences, groups]
  exact regrouped_withCounter grouped

-- nothing is learnt from running a take-over on a catalog that is spelled out
attribute [irreducible] replaced

end Catalog

/-- If the name for the new table is free, the trial run is the take-over on the catalog that the
swap leads to. -/
theorem wp_rehearse (wf : live.WellFormed) (found : live.tables.get? current.id = some current)
    (defined : target.definition = .ok d) {post : Unit → Catalog → Prop}
    {fails : Fault → Catalog → Prop}
    (taken : (live.tableNamed? ⟨current.name.schema, config.temporaryNew⟩).isSome →
      ∀ f, f.Foreseen → fails f live)
    (ok : WP (takeOver (live.nextId + 1) target) post fails (live.replaced current
      { d with name := ⟨current.name.schema, config.temporaryNew⟩ })) :
    WP (rehearse config current.name target) post fails live := by
  unfold rehearse
  rw [wp_bind, wp_get, wp_bind, wp_lift_of_ok (wf.tableNamed_eq found), wp_bind,
    wp_lift_of_ok defined, wp_bind]
  apply wp_createTable taken
  intro free
  rw [wp_bind, wp_discard]
  apply wp_removeTable wf.intact.created.toLinked (found_created wf found)
  intro _
  obtain ⟨t, there, _⟩ := exists_removed_created
    (d := { d with name := ⟨current.name.schema, config.temporaryNew⟩ }) wf found
  rw [wp_bind, wp_of_ok (renameTable_eq there (tableNamed?_removed_created wf found free))]
  unfold regroup
  rw [wp_bind, wp_modify, ← replaced]
  exact ok

end GroupedTables
