import GroupedTables.Proofs.Alter.Drafting

/-!
# What a plan holds

A plan that comes about holds a draft of the table that passed its validation. One that does
not come about fails with a fault that is excused, in whatever step of drafting it fails.
-/

namespace GroupedTables

open GroupedTables.Action Catalog

variable {σ : Type} {live : Catalog} {current : Table}

/-- A table as it is to be, in a draft that passed its validation. -/
structure Staged.Fits (target : Staged) (live : Catalog) (current : Table) : Prop where
  table : target.table = current.id
  drafts : Drafts live current (target.catalog.columnNamesOf current.id) target.catalog
  valid : target.catalog.validate = .ok ()

theorem Staged.Fits.definition_eq {target : Staged} {d : Table} (h : target.Fits live current)
    (planned : target.catalog.tables.get? current.id = some d) : target.definition = .ok d := by
  rw [Staged.definition, h.table, table_of_get? planned]

theorem Staged.exists_definition {α : Type} {target : Staged} {f : Table → α} {a : α}
    (known : target.definition.toOption.map f = some a) :
    ∃ d, target.definition = .ok d ∧ f d = a := by
  obtain ⟨d, defined, same⟩ := Option.map_eq_some_iff.1 known
  cases ended : target.definition with
  | ok d' =>
    rw [ended] at defined
    exact ⟨d', rfl, Option.some.inj defined ▸ same⟩
  | error f =>
    rw [ended] at defined
    cases defined

theorem Staged.Fits.acyclic {target : Staged} (h : target.Fits live current) :
    target.catalog.Acyclic :=
  h.drafts.intact.toNumbered.addressed.acyclic_of_valid h.valid

theorem Context.wp_checkCancelled {post : Unit → Context → Prop} {fails : Fault → Context → Prop}
    {k : Context} (foreseen : ∀ f k, f.Foreseen → fails f k) (ok : ∀ k, post () k) :
    WP Context.checkCancelled post fails k := by
  unfold Context.checkCancelled
  simp only [wp_bind, wp_modify, wp_get, wp_ite]
  exact ⟨fun _ => foreseen _ _ trivial, fun _ => ok _⟩

/-- A statement that is not cancelled is not cut short. -/
theorem Context.wp_checkCancelled_of {post : Unit → Context → Prop} {fails : Fault → Context → Prop}
    {k : Context} (alive : k.cancelledFrom = none)
    (ok : ∀ k', k'.cancelledFrom = none → post () k') : WP Context.checkCancelled post fails k := by
  unfold Context.checkCancelled
  simp only [wp_bind, wp_modify, wp_get, wp_ite]
  have heard (check : Nat) :
      ({ k with checks := k.checks + 1 } : Context).cancelledAt check = false := by
    rw [Context.cancelledAt, alive]
    rfl
  constructor
  · intro cancelled
    rw [heard] at cancelled
    cases cancelled
  · exact fun _ => ok _ alive

theorem Draft.limits_checkColumnChange {P : Fault → Prop}
    (missing : ∀ name, P (.noSuchColumn name)) (change : Change) :
    Check.Limits P (Draft.checkColumnChange current change) :=
  .ite (fun _ => Check.limits_ok _) fun _ => Check.limits_error (missing _)

theorem Draft.limits_checkIndexChange {P : Fault → Prop}
    (missing : ∀ table name, P (.noSuchIndex table name))
    (notUnique : ∀ table name, P (.noSuchUnique table name)) (change : Change) :
    Check.Limits P (Draft.checkIndexChange current change) :=
  .ite (fun _ => Check.limits_ok _) fun _ =>
    .ite (fun _ => Check.limits_error (missing ..)) fun _ => Check.limits_error (notUnique ..)

/-- A validation that a draft does not pass finds nothing that is broken. -/
theorem Drafts.excused_validate {c : Catalog} {names : List String}
    (h : Drafts live current names c) (wf : live.WellFormed)
    {f : Fault} (failed : c.validate = .error f) : Excused live f := by
  intro apart
  refine h.intact.foresees_validate (fun k t there => ?_) (h.supply apart).1 f failed
  by_cases same : k = current.id
  · rw [same] at there
    exact (h.drafted there).positioned
  · obtain ⟨l, listed, body⟩ := h.others there same
    exact Table.positioned_of_columns (wf.positioned listed) (congrArg Table.columns body).symm

/-- The tree of a table is a part of the catalog with the table in it. -/
theorem Catalog.exists_of_selectTree {tree : Catalog}
    (selected : live.selectTree current.id = .ok tree) :
    ∃ test, tree = live.select test ∧ test current = true := by
  obtain ⟨root, rooted, selected⟩ := Check.bind_eq_ok.1 selected
  cases selected
  refine ⟨live.hasRoot root, rfl, ?_⟩
  rw [hasRoot, rooted]
  exact beq_self_eq_true root

/-- A plan is a draft that starts from the tree of the table, between two looks at whether the
statement was cancelled. -/
theorem Planner.wp_plan_of (p : Planner σ) {id : TableId} {e : Edits} {k : Context}
    {post : Plan → Context → Prop} {fails : Fault → Context → Prop}
    (start : WP Context.checkCancelled (fun _ k =>
      (∀ change ∈ e.columnChanges, ∀ f,
        Draft.checkColumnChange current change = .error f → fails f k) ∧
      (∀ f, live.selectTree id = .error f → fails f k) ∧
      ∀ tree, (∀ change ∈ e.columnChanges, Draft.checkColumnChange current change = .ok ()) →
        live.selectTree id = .ok tree →
        WP (do
          Draft.edit (Draft.resetTable current e.columnChanges)
          p.draftEdits live id current e)
          (fun changes d => WP Context.checkCancelled
            (fun _ k => post ⟨⟨d.catalog, id⟩, e.columnChanges, changes⟩ k) fails d.context)
          (fun f d => fails f d.context) ⟨tree, k⟩) fails k) :
    WP (p.plan live id current e) post fails k := by
  unfold Planner.plan
  rw [wp_bind]
  apply start.mono_post
  rintro _ k ⟨unlisted, lost, drafted⟩
  rw [wp_bind]
  refine wp_forM_lift (fun listed => ?_) unlisted
  rw [wp_bind, wp_lift]
  refine ⟨fun tree selected => ?_, lost⟩
  have drafted := drafted tree listed selected
  apply (wp_bind _ _).2
  generalize (do
    Draft.edit (Draft.resetTable current e.columnChanges)
    p.draftEdits live id current e : Action Draft (List Change)) = draft at drafted
  unfold WP at drafted ⊢
  cases ended : draft ⟨tree, k⟩ with
  | ok changes d =>
    rw [ended] at drafted
    simp only [ended]
    exact (wp_bind _ _).2 drafted
  | error f d =>
    rw [ended] at drafted
    simp only [ended]
    exact drafted

/-- What holds of every plan that comes about is found by drafting its edits, from the part of the
catalog on that the table is in. -/
theorem Planner.wp_plan_drafted (p : Planner σ) {e : Edits} {k : Context} {post : Plan → Prop}
    (drafted : ∀ test k, test current = true →
      (∀ change ∈ e.columnChanges, Draft.checkColumnChange current change = .ok ()) →
      WP (do
        Draft.edit (Draft.resetTable current e.columnChanges)
        p.draftEdits live current.id current e)
        (fun changes d => post ⟨⟨d.catalog, current.id⟩, e.columnChanges, changes⟩)
        (fun _ _ => True) ⟨live.select test, k⟩) :
    WP (p.plan live current.id current e) (fun plan _ => post plan) (fun _ _ => True) k := by
  refine p.wp_plan_of (Context.wp_checkCancelled (fun _ _ _ => trivial) fun k =>
    ⟨fun _ _ _ _ => trivial, fun _ _ => trivial, fun tree checked selected => ?_⟩)
  obtain ⟨test, rfl, passes⟩ := exists_of_selectTree selected
  refine (drafted test k passes checked).mono_post fun changes d holds => ?_
  exact Context.wp_checkCancelled (fun _ _ _ => trivial) fun _ => holds

/-- Drafting goes through the edits of columns, the indexes there were, the constraints that are
asked for and the edits of the parent, with an invariant for each. -/
theorem Planner.wp_draftEdits_through (p : Planner σ) {e : Edits} {d : Draft}
    {post : List Change → Draft → Prop} {fails : Fault → Draft → Prop}
    (columns : List ColumnEdit → Draft → Prop) (indexes : List Index → List Change → Draft → Prop)
    (keys : List KeyEdit → List Change → Draft → Prop)
    (parents : List ParentEdit → List Change → Draft → Prop)
    (start : columns e.columns d)
    (edited : ∀ edit rest d, columns (edit :: rest) d →
      WP (Draft.applyColumnEdit current.id edit) (fun _ => columns rest) fails d)
    (looked : ∀ d, columns [] d → WP (Draft.onContext Context.checkCancelled)
      (fun _ d => (∀ change ∈ e.indexChanges, ∀ f,
          Draft.checkIndexChange current change = .error f → fails f d) ∧
        ((∀ change ∈ e.indexChanges, Draft.checkIndexChange current change = .ok ()) →
          indexes current.indexes e.indexChanges d)) fails d)
    (kept : ∀ index rest changes d, indexes (index :: rest) changes d →
      WP (Draft.edit (Draft.keepIndex current.id e.columnChanges changes index)) (indexes rest)
        fails d)
    (asked : ∀ changes d, indexes [] changes d → keys e.keys changes d)
    (added : ∀ key rest names changes d, keys (key :: rest) changes d →
      WP (Draft.edit (Draft.addKey current.id names changes key))
        (fun added => keys rest added.2) fails d)
    (keyed : ∀ changes d, keys [] changes d → parents e.parents changes d)
    (placed : ∀ parent rest changes d, parents (parent :: rest) changes d →
      WP (Draft.edit (Draft.applyParentEdit live current p.schema parent))
        (fun _ => parents rest changes) fails d)
    (done : ∀ changes d, parents [] changes d → (∀ f, d.catalog.validate = .error f → fails f d) ∧
      (d.catalog.validate = .ok () → post changes d)) :
    WP (p.draftEdits live current.id current e) post fails d := by
  unfold Planner.draftEdits
  rw [wp_bind]
  refine wp_forM columns start (fun d h => ?_) edited
  rw [wp_bind]
  refine (looked d h).mono_post fun _ d ⟨missing, h⟩ => ?_
  rw [wp_bind]
  refine wp_forM_lift (fun checked => ?_) missing
  rw [wp_bind]
  refine wp_foldlM indexes (h checked) (fun changes d h => ?_) fun index rest changes d h =>
    kept index rest changes d h
  rw [wp_bind]
  refine wp_foldlM (fun rest (added : IndexNames × List Change) => keys rest added.2)
    (asked changes d h) (fun added d h => ?_) fun key rest names d h =>
      added key rest names.1 names.2 d h
  rw [wp_bind]
  refine wp_forM (fun rest => parents rest added.2) (keyed added.2 d h) (fun d h => ?_)
    fun parent rest d h => placed parent rest added.2 d h
  obtain ⟨invalid, valid⟩ := done added.2 d h
  simp only [wp_bind, wp_get, wp_lift, wp_pure]
  exact ⟨fun _ checked => valid checked, invalid⟩

/-- Drafting, where what holds once the constraints are there still holds once the table has its
place. -/
theorem Planner.wp_draftEdits_of (p : Planner σ) {e : Edits} {d : Draft}
    {post : List Change → Draft → Prop} {fails : Fault → Draft → Prop}
    (columns : List ColumnEdit → Draft → Prop) (indexes : List Index → List Change → Draft → Prop)
    (keys : List KeyEdit → List Change → Draft → Prop)
    (start : columns e.columns d)
    (edited : ∀ edit rest d, columns (edit :: rest) d →
      WP (Draft.applyColumnEdit current.id edit) (fun _ => columns rest) fails d)
    (looked : ∀ d, columns [] d → WP (Draft.onContext Context.checkCancelled)
      (fun _ d => (∀ change ∈ e.indexChanges, ∀ f,
          Draft.checkIndexChange current change = .error f → fails f d) ∧
        ((∀ change ∈ e.indexChanges, Draft.checkIndexChange current change = .ok ()) →
          indexes current.indexes e.indexChanges d)) fails d)
    (kept : ∀ index rest changes d, indexes (index :: rest) changes d →
      WP (Draft.edit (Draft.keepIndex current.id e.columnChanges changes index)) (indexes rest)
        fails d)
    (asked : ∀ changes d, indexes [] changes d → keys e.keys changes d)
    (added : ∀ key rest names changes d, keys (key :: rest) changes d →
      WP (Draft.edit (Draft.addKey current.id names changes key))
        (fun added => keys rest added.2) fails d)
    (placed : ∀ parent ∈ e.parents, ∀ changes d, keys [] changes d →
      WP (Draft.edit (Draft.applyParentEdit live current p.schema parent))
        (fun _ => keys [] changes) fails d)
    (done : ∀ changes d, keys [] changes d → (∀ f, d.catalog.validate = .error f → fails f d) ∧
      (d.catalog.validate = .ok () → post changes d)) :
    WP (p.draftEdits live current.id current e) post fails d := by
  refine p.wp_draftEdits_through columns indexes keys
    (fun rest changes d => (∀ parent ∈ rest, parent ∈ e.parents) ∧ keys [] changes d)
    start edited looked kept asked added (fun changes d h => ⟨fun _ => id, h⟩) ?_
    fun changes d h => done changes d h.2
  rintro parent rest changes d ⟨inside, h⟩
  exact (placed parent (inside parent (.head _)) changes d h).mono_post fun _ _ h =>
    ⟨fun other ahead => inside other (.tail _ ahead), h⟩

variable (wf : live.WellFormed) (found : live.tables.get? current.id = some current)

include wf found

theorem Planner.wp_draftEdits (p : Planner σ) (e : Edits) {d : Draft} {names : List String}
    (h : Drafts live current names d.catalog) :
    WP (p.draftEdits live current.id current e)
      (fun _ d => Drafts live current (names ++ e.columns.flatMap ColumnEdit.addedNames) d.catalog ∧
        d.catalog.validate = .ok ())
      (fun f _ => Excused live f) d := by
  refine p.wp_draftEdits_of
    (fun rest d => ∃ names', Drafts live current names' d.catalog ∧
      names' ++ rest.flatMap ColumnEdit.addedNames =
        names ++ e.columns.flatMap ColumnEdit.addedNames)
    (fun _ _ d => Drafts live current (names ++ e.columns.flatMap ColumnEdit.addedNames) d.catalog)
    (fun _ _ d => Drafts live current (names ++ e.columns.flatMap ColumnEdit.addedNames) d.catalog)
    ⟨names, h, rfl⟩ ?_ ?_ (fun index _ changes d h => Drafts.keeps_edit
      (h.keeps_keepIndex wf found _ changes index)) (fun _ _ h => h)
    (fun key _ taken changes d h => Drafts.keeps_edit (h.keeps_addKey wf found taken changes key))
    (fun parent _ _ d h => Drafts.keeps_edit (h.keeps_applyParentEdit wf p.schema parent))
    fun _ d h => ⟨fun f failed => h.excused_validate wf failed, fun valid => ⟨h, valid⟩⟩
  · rintro edit rest d ⟨names', h, same⟩
    refine (h.keeps_applyColumnEdit wf found edit).mono_post fun _ d h => ⟨_, h, ?_⟩
    rw [List.append_assoc, ← List.flatMap_cons]
    exact same
  · rintro d ⟨names', h, same⟩
    rw [List.flatMap_nil, List.append_nil] at same
    subst same
    refine wp_within.2 (Context.wp_checkCancelled (fun _ _ => Excused.of_foreseen) fun k => ?_)
    exact ⟨fun change _ f failed =>
      Excused.of_foreseen (Draft.limits_checkIndexChange (fun _ _ => trivial) (fun _ _ => trivial)
        change f failed), fun _ => h⟩

/-- What comes of planning the edits of a statement. -/
theorem Planner.wp_plan (p : Planner σ) (e : Edits) (k : Context) :
    WP (p.plan live current.id current e)
      (fun plan _ => plan.staged.Fits live current ∧ plan.columnChanges = e.columnChanges ∧
        plan.staged.catalog.columnNamesOf current.id =
          Drafts.keptNames e.columnChanges current.columns ++
            e.columns.flatMap ColumnEdit.addedNames)
      (fun f _ => Excused live f) k := by
  refine p.wp_plan_of (Context.wp_checkCancelled (fun _ _ => Excused.of_foreseen) fun k =>
    ⟨?_, ?_, ?_⟩)
  · intro change _ f failed
    exact Excused.of_foreseen
      (Draft.limits_checkColumnChange (fun _ => trivial) change f failed)
  · intro f failed
    apply Excused.of_foreseen
    obtain failed | ⟨root, _, failed⟩ := Check.bind_eq_error.1 failed
    · exact wf.intact.toLinked.foresees_rootOf ⟨current, found⟩ f failed
    · cases failed
  · intro tree _ selected
    obtain ⟨test, rfl, passes⟩ := exists_of_selectTree selected
    rw [wp_bind]
    refine (Drafts.keeps_edit (Drafts.keeps_resetTable wf found passes)).mono_post fun _ d h => ?_
    refine (p.wp_draftEdits wf found e h).mono_post fun changes d ⟨h, valid⟩ => ?_
    apply Context.wp_checkCancelled (fun _ _ => Excused.of_foreseen)
    intro k
    have names := h.columnNamesOf
    exact ⟨⟨rfl, names.symm ▸ h, valid⟩, rfl, names⟩

end GroupedTables
