import GroupedTables.Proofs.Alter.Framing
import GroupedTables.Proofs.Alter.Plan
import GroupedTables.Proofs.Catalog.Spending

/-!
# How many ids a draft gives away

A draft gives an id to each new sequence and to each new join, so one with an edit of a column or of
the parent at most. Its counter starts from that of the catalog that is altered, and bringing a
table from there does not move it on. If so many ids are left, all that a draft gives away are
words.
-/

namespace GroupedTables

open GroupedTables.Action Catalog
open scoped Unbounded

variable {σ α β : Type} {read : σ → Catalog} {live : Catalog} {current : Table} {ids ids' : Nat}
  {x : TableId} {act : Action σ α}

/-- An action that gives so many ids away at most, unless it fails, wherever the counter stood. That
of the catalog that tables may be brought from did not stand further. -/
def Allots (read : σ → Catalog) (live : Catalog) (ids : Nat) (act : Action σ α) : Prop :=
  ∀ ⦃n s⦄, live.nextId ≤ n → (read s).nextId ≤ n →
    WP act (fun _ t => (read t).nextId ≤ n + ids) (fun _ _ => True) s

/-- An action that does not move the counter on. -/
theorem Allots.of_maintains (h : ∀ n, Maintains (fun s => (read s).nextId ≤ n) act) :
    Allots read live 0 act := fun n s _ start =>
  (h n s start).mono (fun _ _ => id) fun _ _ _ => trivial

namespace Allots

theorem mono (h : Allots read live ids act) (le : ids ≤ ids') : Allots read live ids' act :=
  fun n _ later start => (h later start).mono_post fun _ _ ended =>
    Nat.le_trans ended (Nat.add_le_add_left le n)

theorem done (a : α) : Allots read live 0 (pure a : Action σ α) :=
  .of_maintains fun _ => maintains_pure a

theorem throw (f : Fault) : Allots read live ids (MonadExcept.throw f : Action σ α) :=
  fun _ _ _ _ => trivial

theorem get : Allots read live 0 (MonadStateOf.get : Action σ σ) :=
  .of_maintains fun _ => maintains_get

theorem lift (x : Except Fault α) : Allots read live 0 (liftM x : Action σ α) :=
  .of_maintains fun _ => maintains_lift x

theorem bind {next : α → Action σ β} (first : Allots read live ids act)
    (rest : ∀ a, Allots read live ids' (next a)) :
    Allots read live (ids + ids') (act >>= next) := by
  intro n s later start
  rw [wp_bind, ← Nat.add_assoc]
  refine (first later start).mono_post fun a t ended => ?_
  exact rest a (Nat.le_trans later (Nat.le_add_right ..)) ended

theorem idle_bind {next : α → Action σ β} (first : Allots read live 0 act)
    (rest : ∀ a, Allots read live ids (next a)) : Allots read live ids (act >>= next) :=
  (first.bind rest).mono (Nat.le_of_eq (Nat.zero_add _))

theorem bind_idle {next : α → Action σ β} (first : Allots read live ids act)
    (rest : ∀ a, Allots read live 0 (next a)) : Allots read live ids (act >>= next) :=
  first.bind rest

theorem ite {b : Prop} [Decidable b] {other : Action σ α} (first : Allots read live ids act)
    (second : Allots read live ids other) : Allots read live ids (if b then act else other) := by
  split
  · exact first
  · exact second

/-- An action that goes on unless it is refused. -/
theorem refused {b : Prop} {_ : Decidable b} {f : Fault} {next : PUnit → Action σ α}
    (rest : Allots read live ids (next ⟨⟩)) :
    Allots read live ids (if b then MonadExcept.throw f >>= next else next ⟨⟩) :=
  .ite (.idle_bind (.throw f) fun _ => rest) rest

theorem discard (h : Allots read live ids act) : Allots read live ids (Functor.discard act) := by
  intro n s later start
  rw [wp_discard]
  exact h later start

/-- A loop that gives an id away with each item at most. -/
theorem forM {items : List β} {act : β → Action σ Unit} (each : ∀ b, Allots read live 1 (act b)) :
    Allots read live items.length (items.forM act) := by
  induction items with
  | nil => exact .done ()
  | cons b rest ih =>
    rw [List.length_cons, Nat.add_comm]
    exact (each b).bind fun _ => ih

/-- A loop that only looks. -/
theorem look {items : List β} {act : β → Action σ Unit} (each : ∀ b, Allots read live 0 (act b)) :
    Allots read live 0 (items.forM act) := by
  intro n s later start
  exact wp_forM (fun _ t => (read t).nextId ≤ n) start (fun _ => id)
    fun b _ _ kept => each b later kept

theorem foldlM {items : List β} {act : α → β → Action σ α} {a : α}
    (each : ∀ a b, Allots read live 0 (act a b)) : Allots read live 0 (items.foldlM act a) := by
  intro n s later start
  exact wp_foldlM (fun _ _ t => (read t).nextId ≤ n) start (fun _ _ => id)
    fun b _ a t kept => each a b later kept

end Allots

namespace Catalog

theorem inNumbers_counter (n : Nat) : InNumbers (·.nextId ≤ n) :=
  ⟨fun _ _ _ _ => id, fun _ _ _ _ => id⟩

theorem allots_editTable {f : Table → Table} : Allots id live 0 (editTable x f) :=
  .of_maintains fun _ => maintains_editTable fun _ => id

theorem allots_addColumn (column : Column) : Allots id live 0 (addColumn x column) :=
  .idle_bind .get fun _ => .idle_bind (.lift _) fun _ => .ite (.throw _) allots_editTable

theorem allots_editColumn (name : String) (f : Column → Column) :
    Allots id live 0 (editColumn x name f) :=
  .idle_bind .get fun _ => .idle_bind (.lift _) fun _ => allots_editTable

theorem allots_addIndex (index : Index) : Allots id live 0 (addIndex x index) := by
  refine .idle_bind .get fun _ => .idle_bind (.lift _) fun t => .ite (.throw _) ?_
  cases t.missingColumn? index.columnNames with
  | none => exact allots_editTable
  | some missing => exact .throw _

theorem allots_allocateId : Allots id live 1 allocateId := fun _ _ _ start =>
  Nat.succ_le_succ start

theorem allots_addSequence (q : Sequence) : Allots id live 1 (addSequence q) :=
  fun _ _ _ start => Nat.succ_le_succ start

theorem allots_removeSequence (s : SequenceId) : Allots id live 0 (removeSequence s) :=
  .of_maintains fun n => (inNumbers_counter n).maintains_removeSequence s

theorem allots_clearParentJoin : Allots id live 0 (clearParentJoin x) :=
  .of_maintains fun n => (inNumbers_counter n).maintains_clearParentJoin x

theorem allots_remapJoinColumns (rename : String → Option String) :
    Allots id live 0 (remapJoinColumns x rename) := by
  have each (i : JoinId) : Allots id live 0 (remapJoin x rename i) := by
    refine .idle_bind .get fun c => ?_
    cases c.joins.get? i with
    | none => exact .done _
    | some j =>
      refine .idle_bind (.of_maintains fun _ => maintains_modify fun _ => id) fun _ => ?_
      exact .ite (.done _) allots_clearParentJoin
  refine .idle_bind .get fun c => .idle_bind (fun n s later start => ?_) fun _ =>
    .done _
  exact wp_mapM (fun _ c => c.nextId ≤ n) start (fun _ _ => id) fun i _ _ kept => each i later kept

theorem allots_addJoin (parent child : TableId) (pairs : List JoinColumn) :
    Allots id live 1 (addJoin parent child pairs) := by
  refine .idle_bind .get fun _ => .idle_bind (.lift _) fun p => .idle_bind (.lift _) fun t => ?_
  refine .idle_bind (.lift _) fun _ => ?_
  apply Allots.refused
  refine .bind_idle allots_allocateId fun i => ?_
  refine .idle_bind (.of_maintains fun _ => maintains_modify fun _ => id) fun _ => ?_
  refine .idle_bind allots_editTable fun _ => .of_maintains fun n => ?_
  exact ((inNumbers_counter n).maintains_assignGroup child p.group).bind fun _ => maintains_pure i

theorem allots_copyTable : Allots id live 0 (copyTable live x) := by
  refine .idle_bind (.lift _) fun t => fun n c later start => ?_
  rw [wp_bind, wp_get, wp_ite]
  refine ⟨fun _ => trivial, fun _ => ?_⟩
  have copied : max c.nextId live.nextId ≤ n := Nat.max_le.2 ⟨start, later⟩
  exact copied

end Catalog

namespace Draft

theorem allots_edit {act : Edit α} (h : Allots id live ids act) :
    Allots catalog live ids (Draft.edit act) := fun _ _ later start =>
  wp_within.2 ((h later start).mono (fun _ _ => id) fun _ _ => id)

theorem allots_onContext (act : Action Context α) :
    Allots catalog live 0 (Draft.onContext act) := fun _ d _ start =>
  Draft.preserves_onContext (P := (·.nextId ≤ _)) act d start

theorem allots_resetTable (changes : List Change) :
    Allots id live 0 (resetTable current changes) := by
  have kept (column : Column) : Allots id live 0 (keepColumn current.id changes column) := by
    unfold keepColumn
    cases Change.finalName? changes column.name with
    | none => exact .done _
    | some name => exact allots_addColumn _
  have emptied {α : Type} (f : Table → Table) (g : Table → α) : Allots id live 0 (do
      let t ← (← get).table current.id
      editTable current.id f
      return g t : Edit α) :=
    .idle_bind .get fun _ => .idle_bind (.lift _) fun _ =>
      .idle_bind allots_editTable fun _ => .done _
  refine .idle_bind (emptied ({ · with columns := [] }) Table.columns).discard fun _ => ?_
  refine .idle_bind (emptied ({ · with indexes := [] }) Table.indexes).discard fun _ => ?_
  exact .idle_bind (.look kept) fun _ => (allots_remapJoinColumns _).discard

theorem allots_createIdentity (column : String) (identity : Identity) :
    Allots id live 1 (createIdentity x column identity) :=
  .idle_bind .get fun _ => .idle_bind (.lift _) fun _ => allots_addSequence _

theorem allots_addDefined (d : ColumnDefinition) : Allots id live 1 (addColumn x d) := by
  unfold addColumn
  cases d.identity with
  | none => exact (allots_addColumn _).mono (Nat.zero_le _)
  | some identity =>
    exact .bind_idle (allots_createIdentity d.name identity) fun s => allots_addColumn _

theorem allots_setDefault (column : Column) (default : Option ColumnDefault) :
    Allots id live 0 (setDefault x column default) := by
  unfold setDefault
  cases column.identity with
  | none => exact allots_editColumn _ _
  | some s => exact .idle_bind (allots_removeSequence s).discard fun _ => allots_editColumn _ _

theorem allots_changeIdentity (name : TableName) (column : Column) (change : IdentityChange) :
    Allots id live 1 (changeIdentity x name column change) := by
  unfold changeIdentity
  cases change with
  | create identity =>
    apply Allots.refused
    exact .bind_idle (allots_createIdentity _ _) fun s => allots_editColumn _ _
  | setIncrement increment =>
    cases column.identity with
    | none => exact .throw _
    | some old =>
      refine .idle_bind (allots_removeSequence old) fun previous => ?_
      exact .bind_idle (allots_addSequence _) fun s => allots_editColumn _ _
  | restart => exact .throw _

theorem allots_setType (column : Column) (descriptor : TypeDescriptor) :
    Allots catalog live 0 (setType x column descriptor) := by
  have edited (default : Option ColumnDefault) : Allots catalog live 0
      (Draft.edit (editColumn x column.name ({ · with descriptor, default }))) :=
    allots_edit (allots_editColumn _ _)
  unfold setType
  dsimp only
  split
  · refine .idle_bind (fun n d later start => ?_) edited
    exact (wp_map ..).2 (allots_onContext _ later start)
  · exact edited _

theorem allots_modifyColumn (name : String) (modification : ColumnModification) :
    Allots catalog live 1 (modifyColumn x name modification) := by
  refine .idle_bind .get fun d => .idle_bind (.lift _) fun t => ?_
  cases t.column? name with
  | none => exact .throw _
  | some column =>
    cases modification with
    | default value =>
      exact (allots_edit (allots_setDefault column value)).mono (Nat.zero_le _)
    | null => exact (allots_edit (allots_editColumn _ _)).mono (Nat.zero_le _)
    | notNull => exact (allots_edit (allots_editColumn _ _)).mono (Nat.zero_le _)
    | type descriptor => exact (allots_setType column descriptor).mono (Nat.zero_le _)
    | identity change => exact allots_edit (allots_changeIdentity t.name column change)

/-- An edit of a column gives one id away at most. -/
theorem allots_applyColumnEdit (e : ColumnEdit) :
    Allots catalog live 1 (applyColumnEdit x e) := by
  cases e with
  | add definition => exact allots_edit (allots_addDefined definition)
  | modify name modification => exact allots_modifyColumn name modification

theorem allots_keepIndex (columnChanges indexChanges : List Change) (index : Index) :
    Allots id live 0 (keepIndex x columnChanges indexChanges index) := by
  refine .ite (.done _) (.ite (.done _) ?_)
  exact .idle_bind (allots_addIndex _) fun _ => .ite (.done _) (.done _)

theorem allots_addKey (names : IndexNames) (changes : List Change) (key : KeyEdit) :
    Allots id live 0 (addKey x names changes key) := by
  unfold addKey
  split
  exact .idle_bind (allots_addIndex _) fun _ => .done _

theorem allots_bringParent (name : TableName) :
    Allots id live 0 (bringParent live current name) := by
  refine .idle_bind .get fun c => ?_
  cases c.tableNamed? name with
  | some parent => exact .done _
  | none =>
    cases found : live.tableNamed? name with
    | none => exact .throw _
    | some parent =>
      exact .idle_bind allots_copyTable fun _ => .done _

theorem allots_joinParent (schema : String) (key : ForeignKey) :
    Allots id live 1 (joinParent live current schema key) := by
  unfold joinParent
  apply Allots.refused
  refine .idle_bind .get fun _ => .idle_bind (.lift _) fun _ => ?_
  apply Allots.refused
  refine .idle_bind (allots_bringParent _) fun parent => .idle_bind .get fun _ => ?_
  refine .idle_bind (.lift _) fun t => ?_
  apply Allots.refused
  exact .idle_bind allots_editTable fun _ => (allots_addJoin ..).discard

theorem allots_applyParentEdit (schema : String) (e : ParentEdit) :
    Allots id live 1 (applyParentEdit live current schema e) := by
  cases e with
  | leave =>
    refine .mono ?_ (Nat.zero_le _)
    refine .idle_bind allots_clearParentJoin fun broken => ?_
    exact .ite (.throw _) (.done _)
  | join key => exact allots_joinParent schema key

end Draft

namespace Planner

theorem allots_draftEdits (p : Planner σ) (e : Edits) :
    Allots Draft.catalog live (e.columns.length + e.parents.length)
      (p.draftEdits live current.id current e) := by
  refine .bind (.forM Draft.allots_applyColumnEdit) fun _ => ?_
  refine .idle_bind (Draft.allots_onContext _) fun _ => ?_
  refine .idle_bind (.look fun _ => .lift _) fun _ => ?_
  refine .idle_bind (.foldlM fun _ _ => Draft.allots_edit (Draft.allots_keepIndex ..)) fun _ => ?_
  refine .idle_bind (.foldlM fun _ _ => Draft.allots_edit (Draft.allots_addKey ..)) fun added => ?_
  refine .bind_idle (.forM fun _ => Draft.allots_edit (Draft.allots_applyParentEdit ..))
    fun _ => ?_
  refine .idle_bind .get fun _ => .idle_bind (.lift _) fun _ => ?_
  exact .done _

/-- The counter of what is planned is that of the catalog, or it was moved on with each edit of a
column or of the parent at most. -/
theorem nextId_le_of_plan {p : Planner σ} {e : Edits} {plan : Plan} {k k' : Context}
    (numbered : live.Numbered) (planned : p.plan live current.id current e k = .ok plan k') :
    plan.staged.catalog.nextId ≤ live.nextId + (e.columns.length + e.parents.length) := by
  have counted : WP (p.plan live current.id current e)
      (fun plan _ => plan.staged.catalog.nextId ≤
        live.nextId + (e.columns.length + e.parents.length)) (fun _ _ => True) k := by
    refine p.wp_plan_drafted fun test k _ _ => ?_
    have start : (live.select test).nextId ≤ live.nextId := Nat.le_of_eq (nextId_select numbered)
    have reset : Allots Draft.catalog live 0
        (Draft.edit (Draft.resetTable current e.columnChanges)) :=
      Draft.allots_edit (Draft.allots_resetTable _)
    exact (reset.idle_bind fun _ => p.allots_draftEdits e) (Nat.le_refl _) start
  exact counted.ok planned

end Planner

end GroupedTables
