import GroupedTables.Proofs.Alter.Costs
import GroupedTables.Proofs.Catalog.Relabelling

/-!
# Statements that only rename columns

A statement that renames columns has its table emptied and put together again. All columns come back
at their positions, or two of them get one name and the statement fails; the joins follow, and every
index comes back with all its columns. What is planned is the tree of the table with other names for
the columns, and nothing has to be done but to note them.
-/

namespace GroupedTables

open GroupedTables.Action Catalog

/-- New names for columns, in the order of a statement. -/
abbrev Relabelling := List (String × String)

variable {current : Table} {f : String → String} {name : String}

namespace Relabelling

variable {r : Relabelling}

def elements (r : Relabelling) : List Element := r.map fun (old, new) => .renameColumn old new

def changes (r : Relabelling) : List Change := r.map fun (old, new) => .modify old new

/-- The name that a column gets, which may be the one it has. -/
def label (r : Relabelling) (name : String) : String := (r.lookup name).getD name

theorem finalName?_changes : Change.finalName? r.changes name = some (r.label name) := by
  induction r with
  | nil => rfl
  | cons pair rest ih =>
    obtain ⟨old, new⟩ := pair
    show Change.finalName? (.modify old new :: changes rest) name = _
    rw [Change.finalName?_cons, ih, label, label, List.lookup_cons]
    by_cases same : name = old
    · subst same
      simp [Change.oldName?, Change.newName?]
    · simp [Change.oldName?, Ne.symm same, beq_eq_false_iff_ne.2 same]

theorem columnChanges_elements : r.elements.filterMap Element.columnChange? = r.changes := by
  rw [elements, changes, List.filterMap_map]
  exact congrFun List.filterMap_eq_map r

theorem ofElementsFrom_elements (there : ∀ pair ∈ r, pair.1 ∈ current.columnNames) (e : Edits) :
    Route.ofElementsFrom current e r.elements =
      .ok (.edit { e with columnChanges := e.columnChanges ++ r.changes }) := by
  induction r generalizing e with
  | nil => simp [elements, changes, Route.ofElementsFrom]
  | cons pair rest ih =>
    obtain ⟨old, new⟩ := pair
    have listed : (current.column? old).isNone = false :=
      Option.isNone_eq_false_iff.2 (Table.column?_isSome_iff.2 (there _ (.head _)))
    have first : e.withElement current (.renameColumn old new) =
        .ok { e with columnChanges := e.columnChanges ++ [.modify old new] } := by
      rw [Edits.withElement, listed]
      rfl
    show (e.withElement current (.renameColumn old new) >>= fun e =>
      Route.ofElementsFrom current e (elements rest)) = _
    rw [first]
    refine (ih (fun pair inside => there pair (.tail _ inside)) _).trans ?_
    rw [List.append_assoc]
    rfl

end Relabelling

/-- A table with some columns under other names, and without indexes. -/
def Table.refilled (f : String → String) (columns : List Column) (t : Table) : Table :=
  { t with
    columns := columns.map fun column => { column with name := f column.name }
    indexes := [] }

/-- Of two columns that get one name, the second is refused. -/
def Coincides (f : String → String) (current : Table) (fault : Fault) : Prop :=
  ¬ (current.columnNames.map f).Nodup ∧
    ∃ name, fault = .duplicateColumn current.name.text name

namespace Draft

variable {tree : Catalog} {columnChanges : List Change}
  (final : ∀ name, Change.finalName? columnChanges name = some (f name))
  (there : tree.tables.get? current.id = some current)

include final there

/-- The next column comes back behind the others, unless one of them got its new name. -/
theorem wp_keepColumn_of_total {done : List Column} {column : Column}
    (position : column.position = done.length) :
    WP (keepColumn current.id columnChanges column)
      (fun _ c => f column.name ∉ done.map (fun column => f column.name) ∧
        c = tree.editing current.id (Table.refilled f (done ++ [column])))
      (fun fault _ => f column.name ∈ done.map (fun column => f column.name) ∧
        ∃ name, fault = .duplicateColumn current.name.text name)
      (tree.editing current.id (Table.refilled f done)) := by
  have listed : (Table.refilled f done current).columnNames =
      done.map fun column => f column.name := by
    simp [Table.refilled, Table.columnNames]
  unfold keepColumn
  rw [final]
  apply wp_addColumn_of (get?_editing_self there)
  · rw [listed]
    exact fun taken => ⟨taken, _, rfl⟩
  · rw [listed]
    refine fun fresh => ⟨fresh, ?_⟩
    rw [editing_editing]
    apply editing_congr there
    simp [Table.refilled, Table.withColumn, position]

/-- The columns all come back, or two of them get one name. -/
theorem wp_keepColumns (positioned : current.Positioned) :
    WP (current.columns.forM (keepColumn current.id columnChanges))
      (fun _ c => (current.columnNames.map f).Nodup ∧
        c = tree.editing current.id (Table.refilled f current.columns))
      (fun fault _ => Coincides f current fault)
      (tree.editing current.id (Table.refilled f [])) := by
  refine wp_forM (fun rest c => ∃ done, current.columns = done ++ rest ∧
    c = tree.editing current.id (Table.refilled f done) ∧
      (done.map fun column => f column.name).Nodup) ⟨[], rfl, rfl, .nil⟩ ?_ ?_
  · rintro _ ⟨done, cut, rfl, distinct⟩
    rw [List.append_nil] at cut
    rw [Table.columnNames, cut, List.map_map]
    exact ⟨distinct, rfl⟩
  · rintro column rest _ ⟨done, cut, rfl, distinct⟩
    have names : current.columnNames.map f = (done.map fun column => f column.name) ++
        f column.name :: rest.map fun column => f column.name := by
      rw [Table.columnNames, cut, List.map_map, List.map_append, List.map_cons]
      rfl
    have position : column.position = done.length := by
      apply Table.positioned_iff.1 positioned
      rw [cut]
      simp
    refine (wp_keepColumn_of_total final there position).mono ?_ ?_
    · rintro _ _ ⟨fresh, rfl⟩
      refine ⟨done ++ [column], by rw [cut, List.append_assoc]; rfl, rfl, ?_⟩
      rw [List.map_append, List.map_singleton, ← List.concat_eq_append]
      exact (List.nodup_concat _ _).2 ⟨fresh, distinct⟩
    · rintro _ _ ⟨taken, name, rfl⟩
      refine ⟨fun distinct => ?_, name, rfl⟩
      rw [names] at distinct
      exact List.disjoint_of_nodup_append distinct taken (.head _)

/-- The joins follow the columns, and the table has no indexes yet. -/
theorem wp_resetTable_of_total (h : tree.WellFormed) :
    WP (resetTable current columnChanges)
      (fun _ c => (current.columnNames.map f).Nodup ∧
        c = (tree.relabelled current.id f).editing current.id ({ · with indexes := [] }))
      (fun fault _ => Coincides f current fault) tree := by
  have start : (tree.editing current.id ({ · with columns := [] })).editing current.id
      ({ · with indexes := [] }) = tree.editing current.id (Table.refilled f []) := editing_editing
  have filled : tree.editing current.id (Table.refilled f current.columns) =
      (tree.editing current.id (Table.relabelled f)).editing current.id
        ({ · with indexes := [] }) := by
    rw [editing_editing]
    exact editing_congr there rfl
  have intact : ((tree.editing current.id (Table.relabelled f)).editing current.id
      ({ · with indexes := [] })).Intact :=
    (intact_editing_relabelled h.intact).editing (fun _ => rfl) (fun _ => rfl) fun _ => rfl
  have followed : ((tree.editing current.id (Table.relabelled f)).editing current.id
      ({ · with indexes := [] })).following current.id (Change.finalName? columnChanges) =
        (tree.relabelled current.id f).editing current.id ({ · with indexes := [] }) := by
    rw [funext final, following_of_total intact fun _ => rfl,
      ← following_eq_relabelled h.intact h.acyclic,
      following_of_total (intact_editing_relabelled h.intact) fun _ => rfl]
    rfl
  unfold resetTable
  simp only [wp_bind, wp_discard]
  rw [wp_dropColumns there, wp_bind, wp_discard, wp_removeIndexes (get?_editing_self there),
    wp_bind, start]
  apply (wp_keepColumns final there (h.positioned there)).mono_post
  rintro _ _ ⟨distinct, rfl⟩
  rw [wp_discard, filled]
  exact wp_remapJoinColumns intact.toLinked fun _ => ⟨distinct, followed⟩

/-- The next index comes back with all its columns, unless one with its name came back. -/
theorem wp_keepIndex_of_total (h : tree.WellFormed) {done : List Index} {index : Index}
    (inside : index ∈ current.indexes) (full : index.columns ≠ []) :
    WP (keepIndex current.id columnChanges [] index)
      (fun changes c => index.name ∉ done.map (·.name) ∧ changes = [] ∧
        c = (tree.relabelled current.id f).editing current.id
          ({ · with indexes := (done ++ [index]).map (Index.relabelled f) }))
      (fun _ _ => index.name ∈ done.map (·.name))
      ((tree.relabelled current.id f).editing current.id
        ({ · with indexes := done.map (Index.relabelled f) })) := by
  have there' : (tree.relabelled current.id f).tables.get? current.id =
      some (current.relabelled f) := get?_editing_self there
  have kept : keptColumns columnChanges index = (index.relabelled f).columns := by
    simp only [keptColumns, final]
    exact congrFun List.filterMap_eq_map index.columns
  have wide : (index.relabelled f).columns.length = index.columns.length := List.length_map _
  have covered : ∀ name ∈ (index.relabelled f).columnNames,
      name ∈ (current.relabelled f).columnNames := by
    rw [Index.columnNames_relabelled, Table.columnNames_relabelled]
    intro name used
    obtain ⟨old, keyed, rfl⟩ := List.mem_map.1 used
    have passed := checkIndex_eq_ok.1 (h.indexed there index inside) old keyed
    exact List.mem_map_of_mem (Table.typeOf?_isSome_iff.1 passed)
  have names : ((done.map (Index.relabelled f)).map (·.name)) = done.map (·.name) := by
    rw [List.map_map]
    rfl
  unfold keepIndex
  simp only [wp_ite, wp_bind, kept, wide]
  refine ⟨(fun dropped => by cases dropped), fun _ => ⟨fun empty => ?_, fun _ => ?_⟩⟩
  · rw [List.isEmpty_iff, ← List.length_eq_zero_iff, wide, List.length_eq_zero_iff] at empty
    exact absurd empty full
  apply wp_addIndex_of (get?_editing_self there')
  · rw [Table.index?_isSome_iff, names]
    exact id
  · intro name missing
    have none := Table.missingColumn?_eq_none_iff.2 covered
    cases none.symm.trans missing
  · intro free _
    rw [Table.index?_eq_none_iff, names] at free
    simp only [bne_self_eq_false, Bool.false_and]
    refine ⟨free, rfl, ?_⟩
    rw [editing_editing, List.map_append, List.map_singleton]
    rfl

/-- Every index comes back with all its columns, just if no two have one name. -/
theorem wp_keepIndexes (h : tree.WellFormed)
    (full : ∀ index ∈ current.indexes, index.columns ≠ []) {k : Context} :
    WP (current.indexes.foldlM
        (fun changes index => edit (keepIndex current.id columnChanges changes index)) [])
      (fun changes d => (current.indexes.map (·.name)).Nodup ∧ changes = [] ∧
        d = ⟨tree.relabelled current.id f, k⟩)
      (fun _ _ => ¬ (current.indexes.map (·.name)).Nodup)
      ⟨(tree.relabelled current.id f).editing current.id ({ · with indexes := [] }), k⟩ := by
  have there' : (tree.relabelled current.id f).tables.get? current.id =
      some (current.relabelled f) := get?_editing_self there
  refine wp_foldlM (fun rest changes d => ∃ done, current.indexes = done ++ rest ∧
    (done.map (·.name)).Nodup ∧ changes = [] ∧
      d = ⟨(tree.relabelled current.id f).editing current.id
        ({ · with indexes := done.map (Index.relabelled f) }), k⟩) ⟨[], rfl, .nil, rfl, rfl⟩ ?_ ?_
  · rintro _ _ ⟨done, cut, named, rfl, rfl⟩
    rw [List.append_nil] at cut
    refine ⟨cut ▸ named, rfl, ?_⟩
    rw [editing_eq_self there']
    rw [← cut]
    rfl
  · rintro index rest _ _ ⟨done, cut, named, rfl, rfl⟩
    have inside : index ∈ current.indexes := cut ▸ List.mem_append_right _ (.head _)
    refine wp_within.2 ((wp_keepIndex_of_total final there h inside (full index inside)).mono ?_ ?_)
    · rintro _ _ ⟨fresh, rfl, rfl⟩
      refine ⟨done ++ [index], by rw [cut, List.append_assoc]; rfl, ?_, rfl, rfl⟩
      rw [List.map_append, List.map_singleton, ← List.concat_eq_append]
      exact (List.nodup_concat _ _).2 ⟨fresh, named⟩
    · intro _ _ repeated all
      rw [cut, List.map_append, List.map_cons] at all
      exact List.disjoint_of_nodup_append all repeated (.head _)

end Draft

namespace Planner

variable {σ : Type} {live : Catalog} {columnChanges : List Change} {k : Context}

/-- The tree of a table can be taken out, with the table in it. -/
theorem exists_selectTree (wf : live.WellFormed)
    (found : live.tables.get? current.id = some current) :
    ∃ root, live.rootOf current.id = .ok root ∧
      live.selectTree current.id = .ok (live.select (live.hasRoot root)) := by
  obtain ⟨root, rooted⟩ := wf.intact.toLinked.exists_rootOf wf.acyclic ⟨current, found⟩
  refine ⟨root, rooted, ?_⟩
  rw [selectTree, rooted]
  rfl

variable (wf : live.WellFormed) (found : live.tables.get? current.id = some current)
  (listed : ∀ change ∈ columnChanges, Draft.checkColumnChange current change = .ok ())
  (final : ∀ name, Change.finalName? columnChanges name = some (f name))
  (alive : k.cancelledFrom = none)

include wf found listed final alive

/-- A plan that only renames columns goes as far as the draft. -/
theorem wp_plan_of_total (p : Planner σ) {post : Plan → Context → Prop}
    {fails : Fault → Context → Prop} {root : TableId} (rooted : live.rootOf current.id = .ok root)
    (coincides : ∀ fault k, Coincides f current fault → fails fault k)
    (drafted : ∀ k, k.cancelledFrom = none → (current.columnNames.map f).Nodup →
      WP (p.draftEdits live current.id current { columnChanges })
        (fun changes d => WP Context.checkCancelled
          (fun _ k => post ⟨⟨d.catalog, current.id⟩, columnChanges, changes⟩ k) fails d.context)
        (fun f d => fails f d.context)
        ⟨((live.select (live.hasRoot root)).relabelled current.id f).editing current.id
          ({ · with indexes := [] }), k⟩) :
    WP (p.plan live current.id current { columnChanges }) post fails k := by
  obtain ⟨root', rooted', selected⟩ := exists_selectTree wf found
  cases rooted.symm.trans rooted'
  refine p.wp_plan_of (Context.wp_checkCancelled_of alive fun k alive => ⟨?_, ?_, ?_⟩)
  · intro change inside f failed
    rw [listed change inside] at failed
    cases failed
  · intro f failed
    rw [selected] at failed
    cases failed
  · intro tree _ selected'
    cases selected.symm.trans selected'
    rw [wp_bind]
    refine wp_within.2 ((Draft.wp_resetTable_of_total final
      (wf.get?_tables_tree.2 ⟨found, rooted⟩) (wf.select _)).mono ?_ ?_)
    · rintro _ _ ⟨distinct, rfl⟩
      exact drafted k alive distinct
    · exact fun fault _ same => coincides fault k same

theorem exists_plan_of_distinct (p : Planner σ) (distinct : (current.columnNames.map f).Nodup)
    (named : (current.indexes.map (·.name)).Nodup)
    (full : ∀ index ∈ current.indexes, index.columns ≠ []) {root : TableId}
    (rooted : live.rootOf current.id = .ok root) :
    ∃ k', p.plan live current.id current { columnChanges } k =
      .ok ⟨⟨(live.select (live.hasRoot root)).relabelled current.id f, current.id⟩,
        columnChanges, []⟩ k' := by
  have there := wf.get?_tables_tree.2 ⟨found, rooted⟩
  have outcome : WP (p.plan live current.id current { columnChanges })
      (fun plan _ => plan = ⟨⟨(live.select (live.hasRoot root)).relabelled current.id f,
        current.id⟩, columnChanges, []⟩) (fun _ _ => False) k := by
    refine p.wp_plan_of_total wf found listed final alive rooted
      (fun _ _ coincides => coincides.1 distinct) fun k alive _ => ?_
    unfold draftEdits
    rw [wp_bind]
    show WP (Draft.onContext Context.checkCancelled >>= _) _ _ _
    rw [wp_bind]
    refine wp_within.2 (Context.wp_checkCancelled_of alive fun k alive => ?_)
    show WP (List.foldlM _ _ _ >>= _) _ _ _
    rw [wp_bind]
    refine (Draft.wp_keepIndexes final there (wf.select _) full).mono ?_
      fun _ _ twice => absurd named twice
    rintro _ _ ⟨_, rfl, rfl⟩
    have valid : ((live.select (live.hasRoot root)).relabelled current.id f).validate = .ok () := by
      apply WellFormed.valid
      apply (wf.select _).relabelled
      intro t there'
      cases there.symm.trans there'
      exact distinct
    show WP (liftM (Catalog.validate _) >>= _) _ _ _
    rw [wp_bind, wp_lift_of_ok valid]
    exact Context.wp_checkCancelled_of alive fun _ _ => rfl
  obtain ⟨plan, k', planned, rfl⟩ := exists_ok_of_wp outcome
  exact ⟨k', planned⟩

theorem exists_error_of_coinciding (p : Planner σ)
    (coinciding : ¬ (current.columnNames.map f).Nodup) :
    ∃ name k', p.plan live current.id current { columnChanges } k =
      .error (.duplicateColumn current.name.text name) k' := by
  obtain ⟨root, rooted, _⟩ := exists_selectTree wf found
  have outcome : WP (p.plan live current.id current { columnChanges }) (fun _ _ => False)
      (fun fault _ => ∃ name, fault = .duplicateColumn current.name.text name) k :=
    p.wp_plan_of_total wf found listed final alive rooted (fun _ _ coincides => coincides.2)
      fun _ _ distinct => absurd distinct coinciding
  obtain ⟨_, k', planned, name, rfl⟩ := exists_error_of_wp outcome
  exact ⟨name, k', planned⟩

end Planner

namespace Relabelling

variable {r : Relabelling}

theorem namedOnce_elements (apart : (r.map Prod.fst).Nodup) :
    Element.NamedOnce current r.elements := by
  refine List.pairwise_map.2 ((List.pairwise_map.1 apart).imp ?_)
  rintro ⟨old, new⟩ ⟨old', new'⟩ differ name _ named named'
  cases named
  cases named'
  exact absurd rfl differ

theorem name_of_mem_changes (listed : ∀ pair ∈ r, pair.1 ∈ current.columnNames) {change : Change}
    (inside : change ∈ r.changes) : change.name ∈ current.columnNames := by
  obtain ⟨pair, there, rfl⟩ := List.mem_map.1 inside
  exact listed pair there

/-- New names are no reason to write a row anew. -/
theorem not_rewrites_elements (apart : (r.map Prod.fst).Nodup)
    (listed : ∀ pair ∈ r, pair.1 ∈ current.columnNames)
    (distinct : (current.columnNames.map r.label).Nodup) :
    ¬ Rewrites r.elements current (current.relabelled r.label) [] := by
  have only {element : Element} (inside : element ∈ r.elements) :
      ∃ old new, element = .renameColumn old new := by
    obtain ⟨pair, _, rfl⟩ := List.mem_map.1 inside
    exact ⟨_, _, rfl⟩
  intro reason
  cases reason with
  | adds element =>
    obtain ⟨_, _, same⟩ := only element
    cases same
  | drops element =>
    obtain ⟨_, _, same⟩ := only element
    cases same
  | converts inside inside' survives differ =>
    obtain ⟨column, there, rfl⟩ := List.mem_map.1 inside'
    have consistent : Change.Consistent (r.elements.filterMap Element.columnChange?) := by
      apply (namedOnce_elements apart).consistent (t := current)
      rw [columnChanges_elements]
      exact fun change inside => .inr (name_of_mem_changes listed inside)
    have final := (Element.finalName?_eq_some_iff consistent).2 survives
    rw [columnChanges_elements, finalName?_changes, Option.some.injEq] at final
    rw [Table.columnNames, List.map_map] at distinct
    cases List.inj_on_of_nodup_map distinct inside there final
    obtain differ | ⟨nulls, none⟩ := differ
    · exact differ rfl
    · cases nulls.symm.trans none
  | sorts there => cases there
  | moves parent => exact parent rfl

end Relabelling

variable {σ : Type} {live : Catalog} {k : Context}

/-- Renaming columns is a substitution. If the names that result are distinct, and so are those of
the indexes, what is planned is the tree of the table with the new names, and the level is that of
the catalog alone; otherwise the second column of a name is refused. -/
theorem Planner.plan_relabelled (p : Planner σ) (wf : live.WellFormed)
    (found : live.tables.get? current.id = some current)
    (full : ∀ index ∈ current.indexes, index.columns ≠ [])
    (r : Relabelling) (asked : r ≠ []) (listed : ∀ pair ∈ r, pair.1 ∈ current.columnNames)
    (apart : (r.map Prod.fst).Nodup) (alive : k.cancelledFrom = none) :
    Route.ofElements current r.elements = .ok (.edit { columnChanges := r.changes }) ∧
    ((current.columnNames.map r.label).Nodup → (current.indexes.map (·.name)).Nodup →
      ∃ tree k', live.selectTree current.id = .ok tree ∧
        (∀ x t, tree.tables.get? x = some t ↔
          live.tables.get? x = some t ∧ live.rootOf x = live.rootOf current.id) ∧
        (∀ i j, tree.joins.get? i = some j ↔
          live.joins.get? i = some j ∧ live.rootOf j.child = live.rootOf current.id) ∧
        p.plan live current.id current { columnChanges := r.changes } k =
          .ok ⟨⟨tree.relabelled current.id r.label, current.id⟩, r.changes, []⟩ k' ∧
        Level.classify live current.id ⟨tree.relabelled current.id r.label, current.id⟩
          r.changes [] = .ok .metadata) ∧
    (¬ (current.columnNames.map r.label).Nodup →
      ∃ name k', p.plan live current.id current { columnChanges := r.changes } k =
        .error (.duplicateColumn current.name.text name) k') := by
  have checked : ∀ change ∈ r.changes, Draft.checkColumnChange current change = .ok () := by
    intro change inside
    have there := Table.column?_isSome_iff.2 (Relabelling.name_of_mem_changes listed inside)
    exact if_pos (Bool.or_eq_true_iff.2 (.inr there))
  have final (name : String) : Change.finalName? r.changes name = some (r.label name) :=
    Relabelling.finalName?_changes
  have route : Route.ofElements current r.elements =
      .ok (.edit { columnChanges := r.changes }) := by
    have some : r.elements.isEmpty = false := by
      rw [Relabelling.elements, List.isEmpty_map]
      exact List.isEmpty_eq_false_iff.2 asked
    rw [Route.ofElements, some]
    exact Relabelling.ofElementsFrom_elements listed {}
  refine ⟨route, fun distinct named => ?_,
    exists_error_of_coinciding wf found checked final alive p⟩
  obtain ⟨root, rooted, selected⟩ := exists_selectTree wf found
  obtain ⟨k', planned⟩ :=
    exists_plan_of_distinct wf found checked final alive p distinct named full rooted
  refine ⟨_, k', selected, fun x t => ?_, fun i j => ?_, planned, ?_⟩
  · rw [wf.get?_tables_tree, rooted]
  · rw [wf.get?_joins_tree, rooted]
  · rw [Route.edits_eq route] at planned
    obtain ⟨d, level, defined, classified, rows, free⟩ :=
      exists_level wf found (Relabelling.namedOnce_elements apart) planned
    have there : ((live.select (live.hasRoot root)).relabelled current.id r.label).tables.get?
        current.id = some (current.relabelled r.label) :=
      get?_editing_self (wf.get?_tables_tree.2 ⟨found, rooted⟩)
    cases (table_of_get? there).symm.trans defined
    have cheap : level ≠ .table := fun expensive =>
      Relabelling.not_rewrites_elements apart listed distinct (rows.1 expensive)
    rw [classified, free.2 ⟨cheap, rfl⟩]

/-- The columns of the orders swap their names. -/
theorem Planner.plan_relabelled_shop : ∃ tree k,
    shop.selectTree 2 = .ok tree ∧
    swapping.plan shop 2 orders
      { columnChanges := [.modify "number" "customer", .modify "customer" "number"] } {} =
        .ok ⟨⟨tree.relabelled 2 (Relabelling.label
          [("number", "customer"), ("customer", "number")]), 2⟩,
          [.modify "number" "customer", .modify "customer" "number"], []⟩ k := by
  have renamed := swapping.plan_relabelled (k := {}) shop_wellFormed get?_shop_orders
    (by decide +kernel) [("number", "customer"), ("customer", "number")] nofun (by decide +kernel)
    (by decide +kernel) rfl
  obtain ⟨tree, k, selected, _, _, planned, _⟩ :=
    renamed.2.1 (by decide +kernel) (by decide +kernel)
  exact ⟨tree, k, selected, planned⟩

def indexedTwice : Table where
  id := 1
  name := ⟨"shop", "item"⟩
  columns := [{ name := "label", descriptor := .ofType .bigInt }]
  indexes := [.ofColumns "by_label" ["label"], .ofColumns "by_label" ["label"]]

/-- Validation does not look at the names of indexes, but the second index of a name is not put
back. -/
theorem Planner.not_plan_relabelled_of_indexedTwice : ∃ live k,
    live.WellFormed ∧ live.tables.get? indexedTwice.id = some indexedTwice ∧
    (∀ index ∈ indexedTwice.indexes, index.columns ≠ []) ∧
    (indexedTwice.columnNames.map (Relabelling.label [("label", "text")])).Nodup ∧
    Route.ofElements indexedTwice [.renameColumn "label" "text"] =
      .ok (.edit { columnChanges := [.modify "label" "text"] }) ∧
    swapping.plan live indexedTwice.id indexedTwice
      { columnChanges := [.modify "label" "text"] } {} =
        .error (.duplicateIndex "shop.item" "by_label") k := by
  obtain ⟨_, k, planned, rfl⟩ := exists_error_of_wp (show
    WP (swapping.plan { tables := .ofList [(1, indexedTwice)], nextId := 1 } indexedTwice.id
        indexedTwice { columnChanges := [.modify "label" "text"] })
      (fun _ _ => False) (fun fault _ => fault = .duplicateIndex "shop.item" "by_label") {} by
        decide +kernel)
  exact ⟨_, k, by decide +kernel, by decide +kernel, by decide +kernel, by decide +kernel, rfl,
    planned⟩

end GroupedTables
