import GroupedTables.Proofs.Alter.Plan
import GroupedTables.Proofs.Alter.Reindexing

/-!
# What a plan accounts for

Besides the columns, a plan is to account for the indexes and for the parent of its table. Every
index that is not as it was is in the list of changes. No list tells what happens to the parent; a
table that is still under a parent is joined to it as it was, but for the names of its columns,
since a table that had a parent is never joined to another one.
-/

namespace GroupedTables

open GroupedTables.Action Catalog

variable {σ : Type} {live c : Catalog} {current : Table} {columnChanges changes : List Change}
  {rest : List Index} {j : Join} {x : TableId}

theorem Level.sameJoin_followed (below : j.child = x)
    (survives : j.survives x (Change.finalName? columnChanges) = true) :
    sameJoin columnChanges (some j) (some (j.followed x (Change.finalName? columnChanges))) =
      true := by
  have paired : j.columns.zip (j.followed x (Change.finalName? columnChanges)).columns =
      j.columns.map fun pair => (pair, pair.renamed true (Change.finalName? columnChanges)) := by
    show j.columns.zip (j.columns.map _) = _
    rw [beq_iff_eq.2 below, ← List.zip_map', List.map_id']
  have each : ∀ pair ∈ j.columns, (Change.finalName? columnChanges pair.child).isSome = true := by
    rw [Join.survives, beq_iff_eq.2 below] at survives
    exact List.all_eq_true.1 survives
  rw [sameJoin, paired, List.all_map]
  simp only [Join.followed, List.length_map, beq_self_eq_true, Bool.true_and, List.all_eq_true]
  intro pair inside
  obtain ⟨name, final⟩ := Option.isSome_iff_exists.1 (each pair inside)
  simp [JoinColumn.renamed, JoinColumn.name, final]

/-- If a table had a parent and has one, it is joined as it was but for the names of its columns. -/
def Rejoined (live : Catalog) (current : Table) (columnChanges : List Change) (c : Catalog) :
    Prop :=
  ∀ ⦃i j⦄, live.hook current.id = some i → live.joins.get? i = some j →
    ∀ ⦃i' j'⦄, c.hook current.id = some i' → c.joins.get? i' = some j' →
      Level.sameJoin columnChanges (some j) (some j') = true

namespace Rejoined

theorem congr {c' : Catalog} (h : Rejoined live current columnChanges c)
    (hook : c'.hook current.id = c.hook current.id) (joins : c'.joins = c.joins) :
    Rejoined live current columnChanges c' := by
  unfold Rejoined
  rw [hook, joins]
  exact h

theorem of_root (root : c.hook current.id = none) : Rejoined live current columnChanges c := by
  intro i j _ _ i' j' hung
  rw [root] at hung
  cases hung

theorem ignoresColumns {id : TableId} :
    IgnoresColumns id (Rejoined live current columnChanges) where
  editing c f columns h := by
    refine h.congr (hook_editing fun t => ?_) rfl
    obtain ⟨columns, same⟩ := columns t
    rw [same]
  supplied _ _ _ h := h

theorem ignoresIndexes {id : TableId} :
    IgnoresIndexes id (Rejoined live current columnChanges) := by
  intro c f indexes h
  refine h.congr (hook_editing fun t => ?_) rfl
  obtain ⟨indexes, same⟩ := indexes t
  rw [same]

theorem preserves_assignGroup {group : Option GroupId} :
    Preserves (fun c => c.hook current.id = none) (assignGroup x group) := by
  refine preserves_get.bind fun _ => .forM fun member _ c root => ?_
  apply wp_editTable (fun _ => trivial)
  exact fun _ _ => (hook_editing (f := fun t => { t with group }) fun _ => rfl).trans root

theorem preserves_leaveParent :
    Preserves (Rejoined live current columnChanges) (Draft.leaveParent current) := by
  intro c _
  have left : WP (clearParentJoin current.id)
      (fun removed c => removed = none ∨ c.hook current.id = none) (fun _ _ => True) c := by
    unfold clearParentJoin
    simp only [wp_bind, wp_get, wp_table]
    refine ⟨fun t there => ?_, fun _ => trivial⟩
    cases above : t.parentJoin with
    | none => exact .inl rfl
    | some i =>
      simp only [wp_bind]
      apply wp_editTable (fun _ => trivial)
      intro t there
      simp only [wp_bind, wp_get, wp_modify]
      apply (preserves_assignGroup _ ?_).mono_post
      · exact fun _ _ root => .inr root
      · exact hook_of_get? (get?_editing_self there)
  unfold Draft.leaveParent
  rw [wp_bind]
  apply left.mono_post
  rintro removed c' (rfl | root)
  · trivial
  · rw [wp_ite]
    exact ⟨fun _ => trivial, fun _ => of_root root⟩

/-- Leaving a parent leaves nothing to compare, and a table that had a parent joins none. -/
theorem preserves_applyParentEdit (found : live.tables.get? current.id = some current)
    (schema : String) (e : ParentEdit) :
    Preserves (Rejoined live current columnChanges)
      (Draft.applyParentEdit live current schema e) := by
  cases e with
  | leave => exact preserves_leaveParent
  | join key =>
    cases above : current.parentJoin with
    | none =>
      have always (c : Catalog) : Rejoined live current columnChanges c := by
        intro i j hung
        rw [hook_of_get? found, above] at hung
        cases hung
      intro c _
      unfold WP
      split
      · exact always _
      · trivial
    | some i =>
      have refused : Draft.applyParentEdit live current schema (.join key) =
          throw (.secondParent current.name.text) := by
        unfold Draft.applyParentEdit Draft.joinParent
        rw [above]
        rfl
      rw [refused]
      exact preserves_throw _

end Rejoined

/-- The table is there without indexes. -/
def Unindexed (current : Table) (c : Catalog) : Prop :=
  (c.tables.get? current.id).map Table.indexes = some []

theorem Unindexed.ignoresColumns {id : TableId} : IgnoresColumns id (Unindexed current) where
  editing c f columns h := by
    unfold Unindexed at h ⊢
    rw [get?_editing]
    split
    · rw [Option.map_map, ← h]
      congr 1
      funext t
      obtain ⟨columns, same⟩ := columns t
      rw [Function.comp_apply, same]
    · exact h
  supplied _ _ _ h := h

theorem Unindexed.following {rename : String → Option String} (h : Unindexed current c) :
    Unindexed current (c.following x rename) := by
  obtain ⟨t, there, bare⟩ := Option.map_eq_some_iff.1 h
  have bodies : (c.following x rename).bodies = c.bodies := bodies_following
  obtain ⟨u, there', same⟩ := exists_of_bodies bodies there
  exact Option.map_eq_some_iff.2 ⟨u, there', (congrArg Table.indexes same).trans bare⟩

theorem Catalog.IgnoresColumns.preserves_keepColumn {P : Catalog → Prop} (h : IgnoresColumns x P)
    (column : Column) : Preserves P (Draft.keepColumn x columnChanges column) := by
  unfold Draft.keepColumn
  split
  · exact h.preserves_addColumn _
  · exact preserves_pure _

variable {p : Table → Bool} (wf : live.WellFormed)
  (found : live.tables.get? current.id = some current)

include wf found

omit found in
/-- The joins of a part of the catalog that touch the table are followed from where they are in the
whole. -/
theorem Rejoined.following (intact : c.Intact) (joins : c.joins = live.selectedJoins p) :
    Rejoined live current columnChanges
      (c.following current.id (Change.finalName? columnChanges)) := by
  intro i j hung there i' j' hung' there'
  have below : j'.child = current.id := by
    obtain ⟨j'', there'', below⟩ := (intact.following.toLinked.hook_iff _ _).1 hung'
    cases there'.symm.trans there''
    exact below
  rw [joins_following intact.toNumbered.addressed intact.toLinked, OrderedMap.get?_map,
    OrderedMap.get?_filter] at there'
  obtain ⟨j₀, kept, rfl⟩ := Option.map_eq_some_iff.1 there'
  obtain ⟨listed, survives⟩ := Option.filter_eq_some_iff.1 kept
  have below : j₀.child = current.id := by
    split at below <;> exact below
  have touches : j₀.touches current.id = true := by
    rw [Join.touches, beq_iff_eq.2 below, Bool.true_or]
  rw [touches, Bool.not_true, Bool.false_or] at survives
  rw [joins] at listed
  obtain ⟨there₀, _⟩ := get?_selectedJoins.1 listed
  have hung₀ := wf.intact.toLinked.hook_child there₀
  rw [below, hung] at hung₀
  cases hung₀
  cases there.symm.trans there₀
  rw [if_pos touches]
  exact Level.sameJoin_followed below survives

/-- What columns do not matter to is as it is in the part that a draft starts from, up to the joins
that follow the columns. -/
theorem Drafts.wp_resetTable_of {P post : Catalog → Prop} (passes : p current = true)
    (ignores : IgnoresColumns current.id P) (start : P (emptied live p current))
    (done : ∀ c, c.Intact → P c →
      post (c.following current.id (Change.finalName? columnChanges))) :
    WP (Draft.resetTable current columnChanges) (fun _ => post) (fun _ _ => True)
      (live.select p) := by
  obtain ⟨t, there, _⟩ := exists_select_of_whole wf.numbered found passes
  unfold Draft.resetTable
  simp only [wp_bind, wp_discard]
  rw [wp_dropColumns there, wp_bind, wp_discard, wp_removeIndexes (get?_editing_self there),
    wp_bind]
  refine wp_forM (fun rest c => Resetting live current columnChanges rest c ∧ P c)
    ⟨resetting_emptied wf found passes, start⟩ ?_ ?_
  · rintro c ⟨reset, holds⟩
    obtain ⟨names, drafts, _⟩ := reset.drafts
    exact wp_discard.2 (wp_remapJoinColumns drafts.intact.toLinked fun _ =>
      done c drafts.intact holds)
  · rintro column rest c ⟨reset, holds⟩
    exact ((reset.step wf found).and (ignores.preserves_keepColumn column c holds)).mono
      (fun _ _ => id) fun _ _ _ => trivial

omit found in
theorem joins_emptied : (Drafts.emptied live p current).joins = live.selectedJoins p :=
  joins_select wf.numbered

theorem Drafts.wp_resetTable (passes : p current = true) :
    WP (Draft.resetTable current columnChanges)
      (fun _ c => Unindexed current c ∧ Rejoined live current columnChanges c)
      (fun _ _ => True) (live.select p) := by
  obtain ⟨t, there, _⟩ := exists_select_of_whole wf.numbered found passes
  have ignores : IgnoresColumns current.id (fun c => Unindexed current c ∧
      c.joins = live.selectedJoins p) :=
    ⟨fun _ _ columns h => ⟨Unindexed.ignoresColumns.editing columns h.1, h.2⟩, fun _ _ _ h => h⟩
  refine wp_resetTable_of wf found passes ignores ⟨?_, joins_emptied wf⟩ ?_
  · exact congrArg (Option.map _) (get?_editing_self (get?_editing_self there))
  · exact fun c intact ⟨bare, joins⟩ => ⟨bare.following, Rejoined.following wf intact joins⟩

omit wf found in
/-- Wherever the table stands, and whatever other table is taken over, its indexes are the same. -/
theorem Reindexed.ignoresPlaces :
    IgnoresPlaces live (Reindexed.In current columnChanges rest changes) where
  moved := by
    rintro c c' moved ⟨t, there, h⟩
    obtain ⟨u, there', same⟩ := exists_of_bodies moved.bodies there
    have indexes : u.body.indexes = t.body.indexes := congrArg Table.indexes same
    simp only [Table.body_indexes] at indexes
    exact ⟨u, there', indexes ▸ h⟩
  copied := by
    rintro c k t _ free ⟨u, there, h⟩
    exact ⟨u, get?_copied_of_get? free there, h⟩

theorem Planner.wp_draftEdits_accounts (planner : Planner σ) (e : Edits) {d : Draft}
    (drops : ∀ change ∈ e.indexChanges, change.isDrop = true)
    (bare : Unindexed current d.catalog)
    (rejoined : Rejoined live current e.columnChanges d.catalog) :
    WP (planner.draftEdits live current.id current e)
      (fun changes d => Reindexed.In current e.columnChanges [] changes d.catalog ∧
        Rejoined live current e.columnChanges d.catalog)
      (fun _ _ => True) d := by
  have ignores : IgnoresColumns current.id (fun c => Unindexed current c ∧
      Rejoined live current e.columnChanges c) :=
    ⟨fun _ _ columns h => ⟨Unindexed.ignoresColumns.editing columns h.1,
      Rejoined.ignoresColumns.editing columns h.2⟩, fun _ _ _ h => h⟩
  refine planner.wp_draftEdits_of
    (fun _ d => Unindexed current d.catalog ∧ Rejoined live current e.columnChanges d.catalog)
    (fun rest changes d => Reindexed.In current e.columnChanges rest changes d.catalog ∧
      Rejoined live current e.columnChanges d.catalog)
    (fun _ changes d => Reindexed.In current e.columnChanges [] changes d.catalog ∧
      Rejoined live current e.columnChanges d.catalog)
    ⟨bare, rejoined⟩ (fun edit _ d kept => ignores.preserves_applyColumnEdit edit d kept) ?_ ?_
    (fun _ _ kept => kept) ?_ ?_ fun _ _ kept => ⟨fun _ _ => trivial, fun _ => kept⟩
  · rintro d ⟨bare, rejoined⟩
    apply (Draft.preserves_onContext (P := fun c => Unindexed current c ∧
      Rejoined live current e.columnChanges c) Context.checkCancelled d ⟨bare, rejoined⟩).mono_post
    rintro _ d ⟨bare, rejoined⟩
    refine ⟨fun _ _ _ _ => trivial, fun checked => ⟨?_, rejoined⟩⟩
    obtain ⟨t, there, none⟩ := Option.map_eq_some_iff.1 bare
    refine ⟨t, there, ⟨fun change listed => ?_, by simp [none], [], rfl, by simp⟩⟩
    have passed := checked change listed
    have drop := drops change listed
    cases change with
    | drop name =>
      unfold Draft.checkIndexChange at passed
      split at passed
      · assumption
      · split at passed <;> cases passed
    | add => cases drop
    | modify => cases drop
  · rintro index rest changes d ⟨reindexed, rejoined⟩
    exact wp_within.2 (((Reindexed.wp_keepIndex reindexed).and
      (Rejoined.ignoresIndexes.preserves_keepIndex _ changes index _ rejoined)).mono
      (fun _ _ => id) fun _ _ _ => trivial)
  · rintro key _ names changes d ⟨reindexed, rejoined⟩
    exact wp_within.2 (((Reindexed.wp_addKey reindexed names key).and
      (Rejoined.ignoresIndexes.preserves_addKey names changes key _ rejoined)).mono
      (fun _ _ => id) fun _ _ _ => trivial)
  · rintro e _ changes d ⟨reindexed, rejoined⟩
    exact wp_within.2 (((Reindexed.ignoresPlaces.preserves_applyParentEdit wf.numbered current
      planner.schema e _ reindexed).and
      (Rejoined.preserves_applyParentEdit found planner.schema e _ rejoined)).mono
      (fun _ _ => id) fun _ _ _ => trivial)

/-- What a plan says of the columns, the indexes and the parent of its table is so. -/
structure Planner.Plan.Accounts (live : Catalog) (current : Table) (plan : Plan) : Prop where
  named : ∀ change ∈ plan.columnChanges, change.isAdd = true ∨ change.name ∈ current.columnNames
  reindexed : Reindexed.In current plan.columnChanges [] plan.indexChanges plan.staged.catalog
  rejoined : Rejoined live current plan.columnChanges plan.staged.catalog

/-- A plan that comes about accounts for what it does, if all that its statement says of indexes
that were there is to drop them. -/
theorem Planner.wp_plan_accounts (planner : Planner σ) (e : Edits) (k : Context)
    (drops : ∀ change ∈ e.indexChanges, change.isDrop = true) :
    WP (planner.plan live current.id current e) (fun plan _ => plan.Accounts live current)
      (fun _ _ => True) k := by
  refine planner.wp_plan_drafted fun test k passes checked => ?_
  have named : ∀ change ∈ e.columnChanges,
      change.isAdd = true ∨ change.name ∈ current.columnNames := by
    intro change listed
    have passed := checked change listed
    unfold Draft.checkColumnChange at passed
    split at passed
    case isTrue there =>
      rw [Bool.or_eq_true, Table.column?_isSome_iff] at there
      exact there
    case isFalse => cases passed
  rw [wp_bind]
  refine wp_within.2 ((Drafts.wp_resetTable wf found passes).mono_post ?_)
  rintro _ c ⟨bare, rejoined⟩
  apply (planner.wp_draftEdits_accounts wf found e drops bare rejoined).mono_post
  rintro changes d ⟨reindexed, rejoined⟩
  exact ⟨named, reindexed, rejoined⟩

end GroupedTables
