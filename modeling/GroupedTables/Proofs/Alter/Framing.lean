import GroupedTables.Alter.Planner
import GroupedTables.Proofs.Catalog.Definition
import GroupedTables.Proofs.Catalog.Selection
import GroupedTables.Proofs.Catalog.Sequences

/-!
# What the edits of a statement leave alone

The edits of columns change the columns of one table and the sequences, and nothing else. The
edits of indexes change the indexes of the table, and moving it about changes neither its columns
nor its indexes. So what a statement does to one part of a table is found by following that part
alone.
-/

namespace GroupedTables

open GroupedTables.Action Catalog
open scoped Unbounded

variable {id : TableId} {P : Catalog → Prop}

theorem Draft.preserves_edit {α : Type} {act : Edit α} (kept : Preserves P act) :
    Preserves (fun d : Draft => P d.catalog) (Draft.edit act) :=
  kept.within fun _ _ => rfl

theorem Draft.preserves_onContext {α : Type} (act : Action Context α) :
    Preserves (fun d : Draft => P d.catalog) (Draft.onContext act) := by
  intro d holds
  unfold Draft.onContext
  rw [wp_within]
  unfold WP
  split
  · exact holds
  · trivial

/-- Something about catalogs that the columns of a table and the sequences do not matter to. -/
structure Catalog.IgnoresColumns (id : TableId) (P : Catalog → Prop) : Prop where
  editing : ∀ ⦃c f⦄, (∀ t, ∃ columns, f t = { t with columns }) → P c → P (c.editing id f)
  supplied : ∀ ⦃c⦄ sequences nextId, P c → P { c with sequences, nextId }

namespace Catalog.IgnoresColumns

variable (h : IgnoresColumns id P)

include h

theorem preserves_editTable {f : Table → Table}
    (columns : ∀ t, ∃ columns, f t = { t with columns }) :
    Preserves P (editTable id f) := by
  intro c holds
  unfold editTable
  simp only [wp_bind, wp_get, wp_lift, wp_set]
  exact ⟨fun _ _ => h.editing columns holds, fun _ _ => trivial⟩

theorem preserves_addColumn (column : Column) : Preserves P (Catalog.addColumn id column) := by
  refine preserves_get.bind fun c => (preserves_lift _).bind fun t => ?_
  exact .ite (preserves_throw _) (h.preserves_editTable fun t => ⟨_, rfl⟩)

theorem preserves_editColumn (name : String) (f : Column → Column) :
    Preserves P (editColumn id name f) := by
  refine preserves_get.bind fun c => (preserves_lift _).bind fun _ => ?_
  exact h.preserves_editTable fun t => ⟨_, rfl⟩

theorem preserves_addSequence (q : Sequence) : Preserves P (addSequence q) := by
  intro c holds
  rw [wp_of_ok addSequence_eq]
  exact h.supplied _ _ holds

theorem preserves_removeSequence (s : SequenceId) : Preserves P (removeSequence s) := by
  refine preserves_get.bind fun c => (preserves_lift _).bind fun q => ?_
  exact (preserves_modify fun c holds => h.supplied _ _ holds).bind fun _ => preserves_pure _

theorem preserves_createIdentity (column : String) (identity : Identity) :
    Preserves P (Draft.createIdentity id column identity) := by
  exact preserves_get.bind fun c => (preserves_lift _).bind fun t => h.preserves_addSequence _

theorem preserves_addDefined (d : ColumnDefinition) : Preserves P (Draft.addColumn id d) := by
  unfold Draft.addColumn
  cases d.identity with
  | none => exact h.preserves_addColumn _
  | some identity =>
    exact (h.preserves_createIdentity d.name identity).bind fun s => h.preserves_addColumn _

theorem preserves_setDefault (column : Column) (default : Option ColumnDefault) :
    Preserves P (Draft.setDefault id column default) := by
  unfold Draft.setDefault
  cases column.identity with
  | none => exact h.preserves_editColumn _ _
  | some s => exact (h.preserves_removeSequence s).discard.bind fun _ => h.preserves_editColumn _ _

theorem preserves_changeIdentity (name : TableName) (column : Column) (change : IdentityChange) :
    Preserves P (Draft.changeIdentity id name column change) := by
  cases change with
  | create identity =>
    refine .ite (preserves_throw _) ?_
    exact (h.preserves_createIdentity _ _).bind fun s => h.preserves_editColumn _ _
  | setIncrement increment =>
    unfold Draft.changeIdentity
    cases column.identity with
    | none => exact preserves_throw _
    | some old =>
      refine (h.preserves_removeSequence old).bind fun previous => ?_
      exact (h.preserves_addSequence _).bind fun s => h.preserves_editColumn _ _
  | restart => exact preserves_throw _

theorem preserves_setType (column : Column) (descriptor : TypeDescriptor) :
    Preserves (fun d : Draft => P d.catalog) (Draft.setType id column descriptor) := by
  have edited (default : Option ColumnDefault) :
      Preserves (fun d : Draft => P d.catalog) (Draft.edit
        (Catalog.editColumn id column.name ({ · with descriptor, default }))) :=
    Draft.preserves_edit (h.preserves_editColumn _ _)
  unfold Draft.setType
  dsimp only
  split
  · exact ((Draft.preserves_onContext _).map).bind fun default => edited default
  · exact edited _

theorem preserves_modifyColumn (name : String) (modification : ColumnModification) :
    Preserves (fun d : Draft => P d.catalog) (Draft.modifyColumn id name modification) := by
  refine preserves_get.bind fun d => (preserves_lift _).bind fun t => ?_
  cases t.column? name with
  | none => exact preserves_throw _
  | some column =>
    cases modification with
    | default value => exact Draft.preserves_edit (h.preserves_setDefault column value)
    | null => exact Draft.preserves_edit (h.preserves_editColumn _ _)
    | notNull => exact Draft.preserves_edit (h.preserves_editColumn _ _)
    | type descriptor => exact h.preserves_setType column descriptor
    | identity change =>
      exact Draft.preserves_edit (h.preserves_changeIdentity t.name column change)

/-- No edit of a column touches what columns do not matter to. -/
theorem preserves_applyColumnEdit (e : ColumnEdit) :
    Preserves (fun d : Draft => P d.catalog) (Draft.applyColumnEdit id e) := by
  cases e with
  | add definition => exact Draft.preserves_edit (h.preserves_addDefined definition)
  | modify name modification => exact h.preserves_modifyColumn name modification

end Catalog.IgnoresColumns

/-- Something about catalogs that the indexes of a table do not matter to. -/
def Catalog.IgnoresIndexes (id : TableId) (P : Catalog → Prop) : Prop :=
  ∀ ⦃c f⦄, (∀ t, ∃ indexes, f t = { t with indexes }) → P c → P (c.editing id f)

namespace Catalog.IgnoresIndexes

variable (h : IgnoresIndexes id P)

include h

theorem preserves_addIndex (index : Index) : Preserves P (addIndex id index) := by
  intro c holds
  unfold addIndex editTable
  simp only [wp_bind, wp_get, wp_lift, wp_ite, wp_throw]
  refine ⟨fun t _ => ⟨fun _ => trivial, fun _ => ?_⟩, fun _ _ => trivial⟩
  split
  · trivial
  · simp only [wp_bind, wp_get, wp_lift, wp_set]
    exact ⟨fun _ _ => h (fun t => ⟨_, rfl⟩) holds, fun _ _ => trivial⟩

theorem preserves_keepIndex (columnChanges indexChanges : List Change) (index : Index) :
    Preserves P (Draft.keepIndex id columnChanges indexChanges index) := by
  refine .ite (preserves_pure _) (.ite (preserves_pure _) ?_)
  exact (h.preserves_addIndex _).bind fun _ => .ite (preserves_pure _) (preserves_pure _)

theorem preserves_addKey (names : IndexNames) (changes : List Change) (key : KeyEdit) :
    Preserves P (Draft.addKey id names changes key) := by
  unfold Draft.addKey
  split
  exact (h.preserves_addIndex _).bind fun _ => preserves_pure _

end Catalog.IgnoresIndexes

/-- Something about catalogs that it does not matter to where tables stand, nor that a table of the
live catalog is taken over. -/
structure Catalog.IgnoresPlaces (live : Catalog) (P : Catalog → Prop) : Prop where
  moved : ∀ ⦃c c'⦄, c.Moved c' → P c → P c'
  copied : ∀ ⦃c k t⦄, live.tables.get? k = some t → c.tables.get? t.id = none → P c →
    P (c.copied live t)

namespace Catalog.IgnoresPlaces

variable {live : Catalog} (h : IgnoresPlaces live P)

include h

theorem preserves_editTable {f : Table → Table} (same : ∀ t, (f t).body = t.body) :
    Preserves P (editTable id f) := by
  intro c holds
  unfold editTable
  simp only [wp_bind, wp_get, wp_lift, wp_set]
  exact ⟨fun _ _ => h.moved ⟨bodies_editing_of_same same, rfl⟩ holds, fun _ _ => trivial⟩

theorem preserves_assignGroup (group : Option GroupId) : Preserves P (assignGroup id group) :=
  preserves_get.bind fun _ => .forM fun _ _ => h.preserves_editTable fun _ => rfl

theorem preserves_clearParentJoin : Preserves P (clearParentJoin id) := by
  refine preserves_get.bind fun c => (preserves_lift _).bind fun t => ?_
  cases t.parentJoin with
  | none => exact preserves_pure _
  | some i =>
    refine .bind ?_ fun _ => preserves_get.bind fun c' => .bind ?_ fun _ =>
      (h.preserves_assignGroup none).bind fun _ => preserves_pure _
    · exact h.preserves_editTable fun _ => rfl
    · exact preserves_modify fun c holds => h.moved (c := c) ⟨rfl, rfl⟩ holds

theorem preserves_addJoin (parent child : TableId) (columns : List JoinColumn) :
    Preserves P (addJoin parent child columns) := by
  refine preserves_get.bind fun c => (preserves_lift _).bind fun p => ?_
  refine (preserves_lift _).bind fun t => (preserves_lift _).bind fun _ => ?_
  refine .ite (preserves_throw _) (.bind ?_ fun i => .bind ?_ fun _ => .bind ?_ fun _ =>
    (h.preserves_assignGroup _).bind fun _ => preserves_pure _)
  · exact fun c holds => h.moved (c := c) ⟨rfl, rfl⟩ holds
  · exact preserves_modify fun c holds => h.moved (c := c) ⟨rfl, rfl⟩ holds
  · exact h.preserves_editTable fun _ => rfl

theorem preserves_bringParent (numbered : live.Numbered) (current : Table) (name : TableName) :
    Preserves P (Draft.bringParent live current name) := by
  refine preserves_get.bind fun c => ?_
  cases c.tableNamed? name with
  | some parent => exact preserves_pure _
  | none =>
    cases named : live.tableNamed? name with
    | none => exact preserves_throw _
    | some parent =>
      obtain ⟨there, _⟩ := numbered.get?_of_tableNamed? named
      refine .bind (fun c holds => ?_) fun _ => preserves_pure _
      exact wp_copyTable numbered there (fun _ _ _ => trivial) fun free =>
        h.copied there free holds

/-- Moving a table about touches nothing that places do not matter to. -/
theorem preserves_applyParentEdit (numbered : live.Numbered) (current : Table) (schema : String)
    (e : ParentEdit) : Preserves P (Draft.applyParentEdit live current schema e) := by
  cases e with
  | leave =>
    exact h.preserves_clearParentJoin.bind fun _ => .ite (preserves_throw _) (preserves_pure _)
  | join key =>
    refine .ite (preserves_throw _) ?_
    refine preserves_get.bind fun c => (preserves_lift _).bind fun above => ?_
    refine .ite (preserves_throw _) ?_
    refine (h.preserves_bringParent numbered current _).bind fun parent => ?_
    refine preserves_get.bind fun c' => (preserves_lift _).bind fun p => ?_
    refine .ite (preserves_throw _) (.bind ?_ fun _ => (h.preserves_addJoin _ _ _).discard)
    exact h.preserves_editTable fun _ => rfl

end Catalog.IgnoresPlaces

end GroupedTables
