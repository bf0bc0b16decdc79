import GroupedTables.Proofs.Alter.Elements
import GroupedTables.Proofs.Alter.Plan

/-!
# What else a plan can fail with

A statement is told that its table has no grouping foreign key in one place only, where the table
is to be taken off its parent. Whatever else is done to plan a statement fails with other faults,
in any catalog, whether it is in order or not.
-/

namespace GroupedTables

open scoped Unbounded

/-- The fault lies elsewhere than in a grouping foreign key that is not there. -/
def Fault.Elsewhere : Fault → Prop
  | .noGroupingKey _ => False
  | _ => True

theorem Fault.elsewhere_iff_code {f : Fault} : f.Elsewhere ↔ f.code ≠ "ALTER_001" := by
  cases f <;> simp [Elsewhere, code]

namespace Catalog

open Check

theorem elsewhere_present {α : Type} (breach : Breach) (a? : Option α) :
    Limits Fault.Elsewhere (present breach a?) := by
  cases a? with
  | none => exact limits_error trivial
  | some a => exact limits_ok a

variable (c : Catalog)

theorem elsewhere_column (table : TableId) (name : String) :
    Limits Fault.Elsewhere (c.column table name) := by
  refine (elsewhere_present _ _).bind fun t _ => ?_
  cases t.column? name with
  | none => exact limits_error trivial
  | some column => exact limits_ok column

theorem elsewhere_rootOf (table : TableId) : Limits Fault.Elsewhere (c.rootOf table) := by
  obtain ⟨r, ended, -⟩ | ⟨_, _, failed, -⟩ | ⟨_, _, failed, -⟩ := c.rootOf_cases table
  · rw [ended]
    exact limits_ok r
  · rw [failed]
    exact limits_error trivial
  · rw [failed]
    exact limits_error trivial

theorem elsewhere_selectTree (table : TableId) : Limits Fault.Elsewhere (c.selectTree table) :=
  (elsewhere_rootOf c table).bind fun _ _ => limits_ok _

theorem elsewhere_ensure (condition : Bool) (breach : Breach) :
    Limits Fault.Elsewhere (ensure condition breach) :=
  .ite (fun _ => limits_ok _) fun _ => limits_error trivial

theorem elsewhere_checkColumns (t : Table) (position : Nat) (columns : List Column) :
    Limits Fault.Elsewhere (c.checkColumns t position columns) := by
  induction columns generalizing position with
  | nil => exact limits_ok _
  | cons column rest ih =>
    have first : Limits Fault.Elsewhere (c.checkColumn t position column) :=
      (elsewhere_ensure _ _).bind fun _ _ => .forM fun _ _ => (elsewhere_present _ _).discard
    exact first.bind fun _ _ => ih (position + 1)

theorem elsewhere_checkParentJoin (t : Table) (i : JoinId) :
    Limits Fault.Elsewhere (c.checkParentJoin t i) :=
  (elsewhere_present _ _).bind fun _ _ => (elsewhere_ensure _ _).bind fun _ _ =>
    (elsewhere_present _ _).bind fun _ _ => elsewhere_ensure _ _

theorem elsewhere_validate : Limits Fault.Elsewhere c.validate := by
  have table (t : Table) : Limits Fault.Elsewhere (c.checkTable t) :=
    (elsewhere_checkColumns c t 0 _).bind fun _ _ =>
      (Limits.forM fun _ _ => limits_checkIndex (fun _ => trivial) _).bind fun _ _ =>
        (Limits.forM fun _ _ => elsewhere_checkParentJoin c t _).bind fun _ _ =>
          (elsewhere_rootOf c _).discard
  have joined (j : Join) : Limits Fault.Elsewhere (c.checkJoined j) :=
    (elsewhere_present _ _).bind fun _ _ => (elsewhere_ensure _ _).bind fun _ _ =>
      (elsewhere_present _ _).bind fun _ _ => .forM fun _ _ =>
        limits_checkPair (fun _ => trivial) (fun _ _ _ _ => trivial) _
  exact (Limits.forM fun t _ => table t).bind fun _ _ => .forM fun j _ => joined j

end Catalog

namespace Catalog

open GroupedTables.Action

theorem elsewhere_editTable (id : TableId) (f : Table → Table) :
    Limits Fault.Elsewhere (editTable id f) :=
  limits_get.bind fun _ => (limits_lift (elsewhere_present _ _)).bind fun _ => limits_set _

theorem elsewhere_addColumn (table : TableId) (column : Column) :
    Limits Fault.Elsewhere (Catalog.addColumn table column) :=
  limits_get.bind fun _ => (limits_lift (elsewhere_present _ _)).bind fun _ =>
    .ite (limits_throw trivial) (elsewhere_editTable _ _)

theorem elsewhere_editColumn (table : TableId) (name : String) (f : Column → Column) :
    Limits Fault.Elsewhere (editColumn table name f) :=
  limits_get.bind fun _ => (limits_lift (elsewhere_column _ _ _)).bind fun _ =>
    elsewhere_editTable _ _

theorem elsewhere_addIndex (table : TableId) (index : Index) :
    Limits Fault.Elsewhere (addIndex table index) := by
  refine limits_get.bind fun c => (limits_lift (elsewhere_present _ _)).bind fun t =>
    .ite (limits_throw trivial) ?_
  split
  · exact limits_throw trivial
  · exact elsewhere_editTable _ _

theorem elsewhere_addSequence (q : Sequence) : Limits Fault.Elsewhere (addSequence q) :=
  fun _ => trivial

theorem elsewhere_removeSequence (s : SequenceId) : Limits Fault.Elsewhere (removeSequence s) :=
  limits_get.bind fun _ => (limits_lift (elsewhere_present _ _)).bind fun q =>
    (limits_modify _).bind fun _ => limits_pure q

theorem elsewhere_clearParentJoin (table : TableId) :
    Limits Fault.Elsewhere (clearParentJoin table) := by
  refine limits_get.bind fun _ => (limits_lift (elsewhere_present _ _)).bind fun t => ?_
  cases t.parentJoin with
  | none => exact limits_pure none
  | some i =>
    exact (elsewhere_editTable _ _).bind fun _ => limits_get.bind fun _ =>
      (limits_modify _).bind fun _ =>
        (limits_get.bind fun _ => .forM fun _ => elsewhere_editTable _ _).bind fun _ =>
          limits_pure _

theorem elsewhere_remapJoinColumns (table : TableId) (rename : String → Option String) :
    Limits Fault.Elsewhere (remapJoinColumns table rename) := by
  have one (i : JoinId) : Limits Fault.Elsewhere (remapJoin table rename i) := by
    refine limits_get.bind fun c => ?_
    cases c.joins.get? i with
    | none => exact limits_pure none
    | some j =>
      exact (limits_modify _).bind fun _ => .ite (limits_pure none) (elsewhere_clearParentJoin _)
  exact limits_get.bind fun _ => (Limits.mapM one).bind fun _ => limits_pure _

end Catalog

namespace Draft

open GroupedTables.Action Catalog

variable (id : TableId) (current : Table)

theorem elsewhere_resetTable (changes : List Change) :
    Limits Fault.Elsewhere (resetTable current changes) := by
  have emptied (f : Table → Table) {α : Type} (read : Table → α) :
      Limits Fault.Elsewhere (do
        let t ← (← get).table current.id
        editTable current.id f
        return read t) :=
    limits_get.bind fun _ => (limits_lift (elsewhere_present _ _)).bind fun _ =>
      (elsewhere_editTable _ _).bind fun _ => limits_pure _
  have kept (column : Column) :
      Limits Fault.Elsewhere (keepColumn current.id changes column) := by
    unfold keepColumn
    split
    · exact elsewhere_addColumn _ _
    · exact limits_pure _
  exact (emptied _ _).discard.bind fun _ => (emptied _ _).discard.bind fun _ =>
    (Limits.forM kept).bind fun _ => (elsewhere_remapJoinColumns _ _).discard

theorem elsewhere_createIdentity (column : String) (identity : Identity) :
    Limits Fault.Elsewhere (createIdentity id column identity) :=
  limits_get.bind fun _ => (limits_lift (elsewhere_present _ _)).bind fun _ =>
    elsewhere_addSequence _

theorem elsewhere_addColumn (d : ColumnDefinition) :
    Limits Fault.Elsewhere (Draft.addColumn id d) := by
  unfold Draft.addColumn
  cases d.identity with
  | none => exact Catalog.elsewhere_addColumn _ _
  | some identity =>
    exact (elsewhere_createIdentity id d.name identity).bind fun _ =>
      Catalog.elsewhere_addColumn _ _

theorem elsewhere_setDefault (column : Column) (default : Option ColumnDefault) :
    Limits Fault.Elsewhere (setDefault id column default) := by
  unfold setDefault
  cases column.identity with
  | none => exact elsewhere_editColumn _ _ _
  | some s =>
    exact (elsewhere_removeSequence s).discard.bind fun _ => elsewhere_editColumn _ _ _

theorem elsewhere_changeIdentity (name : TableName) (column : Column) (change : IdentityChange) :
    Limits Fault.Elsewhere (changeIdentity id name column change) := by
  cases change with
  | create identity =>
    exact .ite (limits_throw trivial) ((elsewhere_createIdentity id _ _).bind fun _ =>
      elsewhere_editColumn _ _ _)
  | setIncrement increment =>
    unfold changeIdentity
    cases column.identity with
    | none => exact limits_throw trivial
    | some old =>
      exact (elsewhere_removeSequence old).bind fun _ => (elsewhere_addSequence _).bind fun _ =>
        elsewhere_editColumn _ _ _
  | restart => exact limits_throw trivial

theorem elsewhere_setType (column : Column) (descriptor : TypeDescriptor) :
    Limits Fault.Elsewhere (setType id column descriptor) := by
  have edited (default : Option ColumnDefault) : Limits Fault.Elsewhere
      (Draft.edit (editColumn id column.name ({ · with descriptor, default }))) :=
    (elsewhere_editColumn _ _ _).within
  have read (text : String) :
      Limits Fault.Elsewhere (Narrowing.literalFor descriptor text) := by
    exact fun k => (Narrowing.wp_literalFor descriptor text k).mono (fun _ _ _ => trivial)
      fun _ _ => False.elim
  unfold setType
  dsimp only
  split
  · exact (read _).within.map.bind edited
  · exact edited _

theorem elsewhere_modifyColumn (name : String) (modification : ColumnModification) :
    Limits Fault.Elsewhere (modifyColumn id name modification) := by
  refine limits_get.bind fun d => (limits_lift (elsewhere_present _ _)).bind fun t => ?_
  cases t.column? name with
  | none => exact limits_throw trivial
  | some column =>
    cases modification with
    | default value => exact (elsewhere_setDefault id column value).within
    | null => exact (elsewhere_editColumn _ _ _).within
    | notNull => exact (elsewhere_editColumn _ _ _).within
    | type descriptor => exact elsewhere_setType id column descriptor
    | identity change => exact (elsewhere_changeIdentity id t.name column change).within

theorem elsewhere_applyColumnEdit (e : ColumnEdit) :
    Limits Fault.Elsewhere (applyColumnEdit id e) := by
  cases e with
  | add definition => exact (elsewhere_addColumn id definition).within
  | modify name modification => exact elsewhere_modifyColumn id name modification

theorem elsewhere_keepIndex (columnChanges indexChanges : List Change) (index : Index) :
    Limits Fault.Elsewhere (keepIndex id columnChanges indexChanges index) := by
  refine .ite (limits_pure _) (.ite (limits_pure _) ?_)
  exact (elsewhere_addIndex _ _).bind fun _ => .ite (limits_pure _) (limits_pure _)

theorem elsewhere_addKey (names : IndexNames) (changes : List Change) (key : KeyEdit) :
    Limits Fault.Elsewhere (addKey id names changes key) := by
  unfold addKey
  split
  exact (elsewhere_addIndex _ _).bind fun _ => limits_pure _

end Draft

theorem Fault.RefusesElement.elsewhere {f : Fault} (h : f.RefusesElement) : f.Elsewhere := by
  cases f with
  | noGroupingKey table => exact h
  | _ => trivial

theorem Context.elsewhere_checkCancelled : Action.Limits Fault.Elsewhere checkCancelled :=
  (Action.limits_modify _).bind fun _ => Action.limits_get.bind fun _ =>
    .ite (Action.limits_throw trivial) (Action.limits_pure _)

end GroupedTables
