import GroupedTables.Proofs.Alter.Relabelling
import GroupedTables.Proofs.Alter.Replanting

/-!
# Statements that only change the parent

A statement that does nothing but give a table a parent, or take it off the one it has, has its
table emptied and put together again like any other. What comes of that is the table as it was, so
the draft differs from the tree of the table by what was done about the parent. Every row has to
be written anew all the same, because rows are kept with those of the parent.
-/

namespace GroupedTables

open GroupedTables.Action Catalog

variable {σ : Type} {live tree : Catalog} {current d t : Table} {root : TableId} {k : Context}
  {schema : String} {key : ForeignKey}

/-- No two columns of a table have one name, and no two indexes. -/
structure Table.NamedApart (t : Table) : Prop where
  columns : t.columnNames.Nodup
  indexes : (t.indexes.map (·.name)).Nodup

/-- No index of a table is without columns. -/
def Table.FullyIndexed (t : Table) : Prop := ∀ index ∈ t.indexes, index.columns ≠ []

instance (t : Table) : Decidable t.FullyIndexed :=
  inferInstanceAs (Decidable (∀ index ∈ t.indexes, index.columns ≠ []))

theorem Table.NamedApart.congr (h : t.NamedApart) (same : d.body = t.body) : d.NamedApart := by
  have columns : d.columns = t.columns := (congrArg Table.columns same :)
  have indexes : d.indexes = t.indexes := (congrArg Table.indexes same :)
  exact ⟨by rw [Table.columnNames, columns]; exact h.columns, indexes ▸ h.indexes⟩

theorem Table.FullyIndexed.congr (h : t.FullyIndexed) (same : d.body = t.body) :
    d.FullyIndexed := by
  have indexes : d.indexes = t.indexes := (congrArg Table.indexes same :)
  exact fun index inside => h index (indexes ▸ inside)

theorem Catalog.wide_congr_of_body {columns : List JoinColumn} (same : d.body = t.body) :
    Wide d columns ↔ Wide t columns :=
  wide_congr (congrArg Table.indexes same :)

/-- A table that is taken off its parent keeps its children. -/
theorem Catalog.Linked.mem_childLinks_detached (h : tree.Linked) (acyclic : tree.Acyclic)
    {x : TableId} (link : TableId × List JoinColumn) :
    link ∈ (tree.detached x).childLinks x ↔ link ∈ tree.childLinks x := by
  obtain ⟨child, columns⟩ := link
  simp only [mem_childLinks, joins_detached h, OrderedMap.get?_filter, Option.filter_eq_some_iff,
    bne_iff_ne]
  constructor
  · rintro ⟨i, j, ⟨there, _⟩, above, below, same⟩
    exact ⟨i, j, there, above, below, same⟩
  · rintro ⟨i, j, there, above, below, same⟩
    exact ⟨i, j, ⟨there, above ▸ (acyclic.parent_ne_child there).symm⟩, above, below, same⟩

/-- A catalog in order stays so when a table is taken off its parent. -/
theorem Catalog.WellFormed.detached (h : tree.WellFormed) {x : TableId} :
    (tree.detached x).WellFormed := by
  refine h.part ⟨fun k t there => ?_, fun i j there => ?_⟩ h.intact.detached
    (h.distinctNames.of_bodies fun k b there => ?_)
    (h.supplied.congr bodies_detached sequences_detached)
  · obtain ⟨u, found, same⟩ := exists_of_bodies (bodies_detached (x := x)).symm there
    exact ⟨u, found, (congrArg Table.columns same :), (congrArg Table.indexes same :)⟩
  · rw [joins_detached h.intact.toLinked, OrderedMap.get?_filter,
      Option.filter_eq_some_iff] at there
    exact there.1
  · rwa [bodies_detached] at there

/-- The children a table has in its tree. -/
theorem Catalog.WellFormed.mem_childLinks_tree (wf : live.WellFormed)
    (rooted : live.rootOf current.id = .ok root) (link : TableId × List JoinColumn) :
    link ∈ (live.select (live.hasRoot root)).childLinks current.id ↔
      link ∈ live.childLinks current.id := by
  obtain ⟨child, columns⟩ := link
  simp only [mem_childLinks, wf.get?_joins_tree]
  constructor
  · rintro ⟨i, j, ⟨there, _⟩, above, below, same⟩
    exact ⟨i, j, there, above, below, same⟩
  · rintro ⟨i, j, there, above, below, same⟩
    have one := wf.intact.toLinked.rootOf_child wf.acyclic there
    exact ⟨i, j, ⟨there, by rw [one, above, rooted]⟩, above, below, same⟩

/-- A plan for the parent alone comes to what is done about the parent in the tree of the table, if
the names of columns and those of indexes are distinct. -/
theorem Planner.wp_plan_placing (p : Planner σ) (wf : live.WellFormed)
    (found : live.tables.get? current.id = some current) (full : current.FullyIndexed)
    (rooted : live.rootOf current.id = .ok root) {parent : ParentEdit} (goes : Context → Prop)
    {post : Plan → Context → Prop} {fails : Fault → Context → Prop} (start : goes k)
    (looked : ∀ k, goes k → WP Context.checkCancelled (fun _ => goes) fails k)
    (twice : ¬ current.NamedApart → ∀ f k, fails f k)
    (placed : current.NamedApart →
      WP (Draft.applyParentEdit live current p.schema parent)
        (fun _ c => (∀ f, c.validate = .error f → ∀ k, fails f k) ∧
          (c.validate = .ok () → ∀ k, goes k → post ⟨⟨c, current.id⟩, [], []⟩ k))
        (fun f _ => ∀ k, fails f k) (live.select (live.hasRoot root))) :
    WP (p.plan live current.id current { parents := [parent] }) post fails k := by
  obtain ⟨root', rooted', selected⟩ := exists_selectTree wf found
  cases rooted.symm.trans rooted'
  have final (name : String) : Change.finalName? [] name = some ((fun name => name) name) := rfl
  have there := wf.get?_tables_tree.2 ⟨found, rooted⟩
  refine p.wp_plan_of ((looked k start).mono_post fun _ k going => ⟨nofun, ?_, ?_⟩)
  · intro f failed
    rw [selected] at failed
    cases failed
  intro tree _ selected'
  cases selected.symm.trans selected'
  rw [wp_bind]
  refine wp_within.2 ((Draft.wp_resetTable_of_total final there (wf.select _)).mono ?_
    fun f _ coincides => twice (fun apart => coincides.1 ?_) f k)
  case refine_2 =>
    rw [List.map_id']
    exact apart.columns
  rintro _ _ ⟨distinct, rfl⟩
  rw [List.map_id'] at distinct
  unfold draftEdits
  rw [wp_bind]
  show WP (Draft.onContext Context.checkCancelled >>= _) _ _ _
  rw [wp_bind]
  refine wp_within.2 ((looked k going).mono_post fun _ k going => ?_)
  show WP (List.foldlM _ _ _ >>= _) _ _ _
  rw [wp_bind]
  refine (Draft.wp_keepIndexes final there (wf.select _) full).mono ?_
    fun f d named => twice (fun apart => named apart.indexes) f d.context
  rintro _ _ ⟨named, rfl, rfl⟩
  rw [relabelled_self]
  show WP ([parent].forM (fun parent => Draft.edit _) >>= _) _ _ _
  rw [wp_bind, List.forM, wp_bind]
  refine wp_within.2 ((placed ⟨distinct, named⟩).mono ?_ fun f _ failed => failed k)
  rintro _ c ⟨invalid, valid⟩
  apply (wp_bind _ _).2
  rw [wp_get, wp_bind, wp_lift]
  exact ⟨fun _ passed => (looked k going).mono_post fun _ k going => valid passed k going,
    fun f failed => invalid f failed k⟩

section

variable (wf : live.WellFormed) (found : live.tables.get? current.id = some current)
  (rooted : live.rootOf current.id = .ok root)

include wf

/-- The parent is the live table with the name, and the tree stays what it is when that is taken
over. -/
theorem Draft.wp_bringParent (tree_eq : tree = live.select (live.hasRoot root)) (name : TableName) :
    WP (Draft.bringParent live current name)
      (fun parent c => c.Intact ∧ c.joins = tree.joins ∧
        (∀ ⦃k t⦄, tree.tables.get? k = some t → c.tables.get? k = some t) ∧
        (∃ t, c.tables.get? parent = some t) ∧
        ∃ above, live.tableNamed name = .ok above ∧ above.id = parent)
      (fun _ _ => True) tree := by
  have intact : tree.Intact := tree_eq ▸ (wf.select _).intact
  unfold Draft.bringParent
  rw [wp_bind, wp_get]
  cases inside : tree.tableNamed? name with
  | some above =>
    obtain ⟨there, rfl⟩ := intact.toNumbered.get?_of_tableNamed? inside
    have there' := there
    rw [tree_eq, wf.get?_tables_tree] at there'
    exact ⟨intact, rfl, fun _ _ => id, ⟨above, there⟩, above, wf.tableNamed_eq there'.1, rfl⟩
  | none =>
    cases named : live.tableNamed? name with
    | none => trivial
    | some above =>
      obtain ⟨there, _⟩ := wf.numbered.get?_of_tableNamed? named
      dsimp only
      rw [wp_bind]
      refine wp_copyTable wf.numbered there (fun _ _ _ => trivial) fun free => ?_
      exact ⟨intact.copied wf.numbered there free, joins_copied,
        fun _ _ => get?_copied_of_get? free, ⟨_, get?_copied.trans (if_pos rfl)⟩, above,
        tableNamed_eq_ok_iff.2 named, rfl⟩

include found rooted

/-- A table that is joined under a parent had none, and keeps its children with all that it is. -/
theorem Draft.wp_joinParent :
    WP (Draft.joinParent live current schema key)
      (fun _ c => current.parentJoin = none ∧ ∃ above d columns,
        live.tableNamed (key.parent.resolve schema) = .ok above ∧
        c.tables.get? current.id = some d ∧ d.body = current.body ∧
        c.parentLink current.id = some (above.id, columns) ∧
        ∀ link, link ∈ c.childLinks current.id ↔ link ∈ live.childLinks current.id)
      (fun _ _ => True) (live.select (live.hasRoot root)) := by
  unfold Draft.joinParent
  rw [wp_ite]
  refine ⟨fun _ => trivial, fun top => ?_⟩
  have top : current.parentJoin = none := by simpa using top
  simp only [wp_bind, wp_get, wp_lift, wp_ite]
  refine ⟨fun _ _ => ⟨fun _ => trivial, fun _ => ?_⟩, fun _ _ => trivial⟩
  refine (Draft.wp_bringParent wf rfl (key.parent.resolve schema)).mono_post ?_
  rintro _ c ⟨intact, joins, kept, ⟨p, above⟩, l, named, rfl⟩
  have there := kept (wf.get?_tables_tree.2 ⟨found, rooted⟩)
  apply (wp_bind _ _).2
  simp only [wp_bind, wp_get, wp_lift, wp_ite]
  refine ⟨fun p' _ => ⟨fun _ => trivial, fun _ => ?_⟩, fun _ _ => trivial⟩
  rw [wp_of_ok (editTable_eq there)]
  have numbered : (c.editing current.id ({ · with group := none })).Numbered :=
    intact.toNumbered.editing fun _ => rfl
  have linked : (c.editing current.id ({ · with group := none })).Linked :=
    intact.toLinked.editing fun _ => rfl
  obtain ⟨p, above⟩ := exists_editing_iff.2 ⟨p, above⟩
  have below := get?_editing_self (f := ({ · with group := none })) there
  rw [wp_discard]
  refine wp_addJoin numbered linked above below (fun _ _ _ => trivial) fun _ acyclic => ?_
  have other : l.id ≠ current.id := fun same => acyclic (same ▸ self_mem_subtree)
  obtain ⟨d, planned, same⟩ := exists_of_bodies bodies_joined below
  refine ⟨top, l, d, _, named, planned, same, parentLink_joined_child below, fun link => ?_⟩
  rw [childLinks_joined numbered other, ← wf.mem_childLinks_tree rooted, childLinks, childLinks,
    childJoins, childJoins, joins_editing, joins]

/-- A table that is taken off the parent it has stays what it is with the children it has. -/
theorem Draft.wp_leaveParent (hung : current.parentJoin ≠ none) :
    WP (Draft.leaveParent current)
      (fun _ c => c = (live.select (live.hasRoot root)).detached current.id) (fun _ _ => False)
      (live.select (live.hasRoot root)) := by
  have there := wf.get?_tables_tree.2 ⟨found, rooted⟩
  have linked := (wf.select (live.hasRoot root)).intact.toLinked
  obtain ⟨i, named⟩ := Option.ne_none_iff_exists'.1 hung
  obtain ⟨j, joined, _⟩ := (linked.hook_iff _ _).1 ((hook_of_get? there).trans named)
  unfold Draft.leaveParent
  rw [wp_bind, wp_of_ok (clearParentJoin_eq linked there), hook_of_get? there, named,
    Option.bind_some, joined, wp_ite]
  exact ⟨fun absent => absurd absent Bool.false_ne_true, fun _ => rfl⟩

end

/-- A plan to give a table another parent, or none. It costs what writing every row anew costs. -/
structure Planner.Plan.Moves (plan : Planner.Plan) (live : Catalog) (current d : Table) : Prop
    extends plan.staged.Replants live current d where
  cost : Level.classify live current.id plan.staged plan.columnChanges plan.indexChanges =
    .ok .table

namespace Planner

variable (p : Planner σ) (wf : live.WellFormed)
  (found : live.tables.get? current.id = some current)

include wf found

/-- Rows are written anew for a table that is under a parent before or after, but not both. -/
theorem classify_eq_table (element : Element) {plan : Plan} {k' : Context}
    (planned : p.plan live current.id current (.ofElements current [element]) k = .ok plan k')
    (staged : plan.staged.Replants live current d)
    (moves : current.parentJoin.isSome ≠ d.parentJoin.isSome) :
    Level.classify live current.id plan.staged plan.columnChanges plan.indexChanges =
      .ok .table := by
  obtain ⟨d', level, defined, classified, rows, _⟩ :=
    exists_level wf found (List.pairwise_singleton _ _) planned
  cases (staged.definition_eq staged.planned).symm.trans defined
  rw [classified, rows.2 (.moves moves)]

/-- A plan for a table that is to have a parent. -/
theorem wp_plan_joining (full : current.FullyIndexed) (key : ForeignKey) (k : Context) :
    WP (p.plan live current.id current { parents := [.join key] })
      (fun plan _ => current.NamedApart ∧ current.parentJoin = none ∧ ∃ above d columns,
        live.tableNamed (key.parent.resolve p.schema) = .ok above ∧ plan.Moves live current d ∧
        plan.staged.catalog.parentLink current.id = some (above.id, columns))
      (fun _ _ => True) k := by
  obtain ⟨root, rooted, _⟩ := exists_selectTree wf found
  have drafted : WP (p.plan live current.id current { parents := [.join key] })
      (fun plan _ => current.NamedApart ∧ current.parentJoin = none ∧ ∃ above d columns,
        live.tableNamed (key.parent.resolve p.schema) = .ok above ∧
        plan.staged.catalog.tables.get? current.id = some d ∧ d.body = current.body ∧
        plan.staged.catalog.parentLink current.id = some (above.id, columns) ∧
        ∀ link, link ∈ plan.staged.catalog.childLinks current.id ↔
          link ∈ live.childLinks current.id)
      (fun _ _ => True) k := by
    refine p.wp_plan_placing wf found full rooted (fun _ => True) trivial
      (fun k _ => Context.wp_checkCancelled (fun _ _ _ => trivial) fun _ => trivial)
      (fun _ _ _ => trivial) fun apart => ?_
    refine (Draft.wp_joinParent wf found rooted).mono (fun _ c placed => ?_)
      fun _ _ _ _ => trivial
    exact ⟨fun _ _ _ => trivial, fun _ _ _ => ⟨apart, placed⟩⟩
  refine (drafted.and (p.wp_plan wf found _ k)).outcome.mono ?_ fun _ _ _ => trivial
  rintro plan k' ⟨planned, ⟨apart, top, above, d, columns, named, there, same, link, children⟩,
    fits, _⟩
  have staged : plan.staged.Replants live current d := ⟨fits, there, same, children⟩
  have hung : d.parentJoin ≠ none := hook_of_get? there ▸ hook_ne_none_of_parentLink link
  have moves : current.parentJoin.isSome ≠ d.parentJoin.isSome := by
    rw [top, Option.isSome_iff_ne_none.2 hung]
    exact Bool.false_ne_true
  have cost := classify_eq_table p wf found (.addForeignKey key) planned staged moves
  exact ⟨apart, top, above, d, columns, named, ⟨staged, cost⟩, link⟩

/-- A plan for a table that is to have none any more. -/
theorem wp_plan_parting (full : current.FullyIndexed) (apart : current.NamedApart)
    (hung : current.parentJoin ≠ none) (alive : k.cancelledFrom = none) :
    WP (p.plan live current.id current { parents := [.leave] })
      (fun plan k' => k'.cancelledFrom = none ∧ (∃ d, plan.Moves live current d) ∧
        plan.staged.catalog.parentLink current.id = none)
      (fun _ _ => False) k := by
  obtain ⟨root, rooted, _⟩ := exists_selectTree wf found
  have drafted : WP (p.plan live current.id current { parents := [.leave] })
      (fun plan k' => k'.cancelledFrom = none ∧
        plan.staged.catalog = (live.select (live.hasRoot root)).detached current.id)
      (fun _ _ => False) k := by
    refine p.wp_plan_placing wf found full rooted (fun k => k.cancelledFrom = none) alive
      (fun k alive => Context.wp_checkCancelled_of alive fun _ => id)
      (fun twice _ _ => twice apart) fun _ => ?_
    refine (Draft.wp_leaveParent wf found rooted hung).mono ?_ fun _ _ failed _ => failed
    rintro _ _ rfl
    have valid := (wf.select (live.hasRoot root)).detached (x := current.id).valid
    refine ⟨fun f failed => ?_, fun _ k alive => ⟨alive, rfl⟩⟩
    rw [valid] at failed
    cases failed
  refine (drafted.and (p.wp_plan wf found _ k)).outcome.mono ?_ fun _ _ failed => failed.2.1
  rintro plan k' ⟨planned, ⟨alive', drafted⟩, fits, _⟩
  have tree := wf.select (live.hasRoot root)
  obtain ⟨d, there, same⟩ := exists_of_bodies (bodies_detached (x := current.id))
    (wf.get?_tables_tree.2 ⟨found, rooted⟩)
  have top : plan.staged.catalog.hook current.id = none := by
    rw [drafted, hook_detached, if_pos rfl]
  rw [← drafted] at there
  have children (link : TableId × List JoinColumn) :
      link ∈ plan.staged.catalog.childLinks current.id ↔ link ∈ live.childLinks current.id := by
    rw [drafted, tree.intact.toLinked.mem_childLinks_detached tree.acyclic,
      wf.mem_childLinks_tree rooted]
  have staged : plan.staged.Replants live current d := ⟨fits, there, same, children⟩
  have moves : current.parentJoin.isSome ≠ d.parentJoin.isSome := by
    rw [Option.isSome_iff_ne_none.2 hung, ← hook_of_get? there, top]
    exact Bool.false_ne_true.symm
  have cost := classify_eq_table p wf found (.dropForeignKey true none) planned staged moves
  exact ⟨alive', ⟨d, staged, cost⟩, parentLink_of_hook_none top⟩

end Planner

end GroupedTables
