import GroupedTables.Proofs.Catalog.Definition
import GroupedTables.Proofs.Catalog.Following
import GroupedTables.Proofs.Catalog.Renaming

/-!
# What the edits of a catalog do to it

Every edit of an intact catalog comes down to a few kinds of steps. An edit that fails has
taken none of them, so only the steps are left to be looked at where something is to hold of
all that edits can make of a catalog.
-/

namespace GroupedTables.Catalog

open GroupedTables.Action Relation
open scoped Unbounded

/-- A call of one of the edits of a catalog. -/
inductive Request where
  | addTable (name : TableName)
  | createTable (definition : Table)
  | renameTable (table : TableId) (name : TableName)
  | removeTable (table : TableId)
  | addColumn (table : TableId) (column : Column)
  | dropColumn (table : TableId) (name : String)
  | dropColumns (table : TableId)
  | addIndex (table : TableId) (index : Index)
  | removeIndex (table : TableId) (name : String)
  | removeIndexes (table : TableId)
  | addJoin (parent child : TableId) (columns : List JoinColumn)
  | clearParentJoin (table : TableId)
  | remapJoinColumns (table : TableId) (rename : String → Option String)
  | regroup
  | addSequence (sequence : Sequence)
  | removeSequence (sequence : SequenceId)

namespace Request

/-- The edit that is called, without what it yields. -/
def run [Numbering] : Request → Edit Unit
  | addTable name => discard (Catalog.addTable name)
  | createTable definition => discard (Catalog.createTable definition)
  | renameTable table name => Catalog.renameTable table name
  | removeTable table => discard (Catalog.removeTable table)
  | addColumn table column => Catalog.addColumn table column
  | dropColumn table name => discard (Catalog.dropColumn table name)
  | dropColumns table => discard (Catalog.dropColumns table)
  | addIndex table index => Catalog.addIndex table index
  | removeIndex table name => discard (Catalog.removeIndex table name)
  | removeIndexes table => discard (Catalog.removeIndexes table)
  | addJoin parent child columns => discard (Catalog.addJoin parent child columns)
  | clearParentJoin table => discard (Catalog.clearParentJoin table)
  | remapJoinColumns table rename => discard (Catalog.remapJoinColumns table rename)
  | regroup => Catalog.regroup
  | addSequence sequence => discard (Catalog.addSequence sequence)
  | removeSequence sequence => discard (Catalog.removeSequence sequence)

/-- The catalog that a call leaves, whether it succeeds or fails. -/
def after [Numbering] (c : Catalog) (request : Request) : Catalog := (request.run.outcome c).2

end Request

/-- A change of a table keeps its name and its place, and so is one of columns and indexes. -/
structure Revises (f : Table → Table) : Prop where
  id : ∀ t, (f t).id = t.id
  name : ∀ t, (f t).name = t.name
  parentJoin : ∀ t, (f t).parentJoin = t.parentJoin
  group : ∀ t, (f t).group = t.group

/-- One step of an edit. -/
inductive Step (c : Catalog) : Catalog → Prop
  | created {definition : Table} (free : c.tableNamed? definition.name = none) :
    Step c (c.created definition)
  | renamed {x : TableId} {name : TableName}
    (free : ∀ holder, c.tableNamed? name = some holder → holder.id = x) :
    Step c (c.renamed x name)
  | removed {x : TableId} {t : Table} (there : c.tables.get? x = some t) : Step c (c.removed x t)
  | revised {x : TableId} {f : Table → Table} (revises : Revises f)
    (positioned : ∀ t, c.tables.get? x = some t → t.Positioned → (f t).Positioned) :
    Step c (c.editing x f)
  | joined {parent child : TableId} {columns : List JoinColumn} {p t : Table}
    (above : c.tables.get? parent = some p) (below : c.tables.get? child = some t)
    (off : c.hook child = none) (acyclic : parent ∉ c.subtree child) :
    Step c (c.joined parent child columns)
  | detached {x : TableId} : Step c (c.detached x)
  | repaired {i : JoinId} {columns : List JoinColumn} : Step c (c.repaired i columns)
  | regrouped : Step c c.regrouped
  | supplying {q : Sequence} : Step c (c.supplying q)
  | unsupplied {s : SequenceId} : Step c { c with sequences := c.sequences.erase s }

def Steps : Catalog → Catalog → Prop := ReflTransGen Step

variable {c c' : Catalog} {x parent child : TableId} {name : TableName} {definition : Table}
  {column : Column} {index : Index} {columns : List JoinColumn} {s : SequenceId}

theorem Steps.of_step (h : c.Step c') : c.Steps c' := .single h

/-- An action that takes some steps, or fails and takes none. -/
def TakesSteps (act : Edit α) (c : Catalog) : Prop := WP act (fun _ => c.Steps) (fun _ => (· = c)) c

theorem takesSteps_createTable (definition : Table) :
    TakesSteps (createTable definition) c :=
  wp_createTable (fun _ _ _ => rfl) fun free => .of_step (.created free)

theorem takesSteps_addTable : TakesSteps (addTable name) c :=
  takesSteps_createTable { id := 0, name }

theorem takesSteps_renameTable : TakesSteps (renameTable x name) c := by
  have edit (free : ∀ holder, c.tableNamed? name = some holder → holder.id = x) :
      TakesSteps (editTable x ({ · with name })) c :=
    wp_editTable (fun _ => rfl) fun _ _ => .of_step (.renamed free)
  unfold TakesSteps renameTable
  simp only [wp_bind, wp_get]
  split
  case h_1 holder named =>
    rw [wp_ite]
    refine ⟨fun _ => rfl, fun own => edit fun holder' named' => ?_⟩
    cases named.symm.trans named'
    simpa using own
  case h_2 unnamed => exact edit fun holder named => absurd named (unnamed holder)

theorem takesSteps_removeTable (h : c.Linked) : TakesSteps (removeTable x) c := by
  cases there : c.tables.get? x with
  | none =>
    unfold TakesSteps removeTable
    simp only [wp_bind, wp_get, wp_table_of_none there]
  | some t => exact wp_removeTable h there fun _ => .of_step (.removed there)

/-- Changing columns or indexes of a table that exists is one step. -/
theorem takesSteps_editTable {f : Table → Table} (revises : Revises f)
    (positioned : ∀ t, c.tables.get? x = some t → t.Positioned → (f t).Positioned) :
    TakesSteps (editTable x f) c :=
  wp_editTable (fun _ => rfl) fun _ _ => .of_step (.revised revises positioned)

theorem takesSteps_addColumn : TakesSteps (addColumn x column) c := by
  unfold TakesSteps addColumn
  simp only [wp_bind, wp_get, wp_table, wp_ite]
  refine ⟨fun t _ => ⟨fun _ => rfl, fun _ => ?_⟩, fun _ => trivial⟩
  exact takesSteps_editTable ⟨fun _ => rfl, fun _ => rfl, fun _ => rfl, fun _ => rfl⟩
    fun _ _ => Table.Positioned.withColumn

theorem takesSteps_dropColumn {name : String} : TakesSteps (dropColumn x name) c := by
  unfold TakesSteps dropColumn
  simp only [wp_bind, wp_get, wp_lift]
  refine ⟨fun column _ => ?_, fun _ _ => trivial⟩
  exact takesSteps_editTable ⟨fun _ => rfl, fun _ => rfl, fun _ => rfl, fun _ => rfl⟩
    fun t _ _ => Table.positioned_renumbered _

theorem takesSteps_dropColumns : TakesSteps (dropColumns x) c := by
  unfold TakesSteps dropColumns
  simp only [wp_bind, wp_get, wp_table]
  refine ⟨fun t _ => ?_, fun _ => trivial⟩
  exact takesSteps_editTable ⟨fun _ => rfl, fun _ => rfl, fun _ => rfl, fun _ => rfl⟩
    fun _ _ _ => rfl

theorem takesSteps_addIndex : TakesSteps (addIndex x index) c := by
  unfold TakesSteps addIndex
  simp only [wp_bind, wp_get, wp_table, wp_ite]
  refine ⟨fun t _ => ⟨fun _ => rfl, fun _ => ?_⟩, fun _ => trivial⟩
  split
  · exact rfl
  · exact takesSteps_editTable ⟨fun _ => rfl, fun _ => rfl, fun _ => rfl, fun _ => rfl⟩
      fun _ _ => id

theorem takesSteps_removeIndex {name : String} : TakesSteps (removeIndex x name) c := by
  unfold TakesSteps removeIndex
  simp only [wp_bind, wp_get, wp_lift]
  refine ⟨fun index _ => ?_, fun _ _ => trivial⟩
  exact takesSteps_editTable ⟨fun _ => rfl, fun _ => rfl, fun _ => rfl, fun _ => rfl⟩
    fun _ _ => id

theorem takesSteps_removeIndexes : TakesSteps (removeIndexes x) c := by
  unfold TakesSteps removeIndexes
  simp only [wp_bind, wp_get, wp_table]
  refine ⟨fun t _ => ?_, fun _ => trivial⟩
  exact takesSteps_editTable ⟨fun _ => rfl, fun _ => rfl, fun _ => rfl, fun _ => rfl⟩
    fun _ _ => id

theorem takesSteps_removeSequence : TakesSteps (removeSequence s) c :=
  wp_removeSequence (fun _ => rfl) fun _ _ => .of_step .unsupplied

theorem takesSteps_addJoin (numbered : c.Numbered) (linked : c.Linked) :
    TakesSteps (addJoin parent child columns) c := by
  cases above : c.tables.get? parent with
  | none =>
    unfold TakesSteps addJoin
    simp only [wp_bind, wp_get, wp_table_of_none above]
  | some p =>
    cases below : c.tables.get? child with
    | none =>
      unfold TakesSteps addJoin
      simp only [wp_bind, wp_get, wp_lift_of_ok (table_of_get? above), wp_table_of_none below]
    | some t =>
      refine wp_addJoin numbered linked above below (fun _ _ _ => rfl) fun passed acyclic => ?_
      have off := (hook_of_get? below).trans (checkJoin_eq_ok.1 passed).1
      exact .of_step (.joined above below off acyclic)

theorem takesSteps_clearParentJoin (h : c.Linked) : TakesSteps (clearParentJoin x) c := by
  cases there : c.tables.get? x with
  | none =>
    unfold TakesSteps clearParentJoin
    simp only [wp_bind, wp_get, wp_table_of_none there]
  | some t => exact (wp_of_ok (clearParentJoin_eq h there)).2 (.of_step .detached)

/-- Following a renaming of columns never fails, so no step has to be taken back. -/
theorem takesSteps_remapJoinColumns (h : c.Linked) {rename : String → Option String} :
    TakesSteps (remapJoinColumns x rename) c := by
  unfold TakesSteps remapJoinColumns
  simp only [wp_bind, wp_get]
  refine wp_mapM (fun _ c' => c.Steps c' ∧ c'.Linked) ⟨.refl, h⟩ (fun _ _ reached => reached.1) ?_
  rintro i _ c' ⟨steps, linked⟩
  refine wp_remapJoin linked ⟨?_, linked.followedAt⟩
  obtain same | ⟨columns, same | ⟨k, same⟩⟩ := followedAt_eq c' x rename i
  · rwa [same]
  · rw [same]
    exact steps.tail .repaired
  · rw [same]
    exact (steps.tail .repaired).tail .detached

/-- A call that succeeds takes steps, and a call that fails leaves the catalog as it is. What
groups the tables are in does not matter for that. -/
theorem Request.takesSteps (numbered : c.Numbered) (linked : c.Linked) (request : Request) :
    TakesSteps request.run c := by
  cases request with
  | addTable => exact wp_discard.2 takesSteps_addTable
  | createTable => exact wp_discard.2 (takesSteps_createTable _)
  | renameTable => exact takesSteps_renameTable
  | removeTable => exact wp_discard.2 (takesSteps_removeTable linked)
  | addColumn => exact takesSteps_addColumn
  | dropColumn => exact wp_discard.2 takesSteps_dropColumn
  | dropColumns => exact wp_discard.2 takesSteps_dropColumns
  | addIndex => exact takesSteps_addIndex
  | removeIndex => exact wp_discard.2 takesSteps_removeIndex
  | removeIndexes => exact wp_discard.2 takesSteps_removeIndexes
  | addJoin => exact wp_discard.2 (takesSteps_addJoin numbered linked)
  | clearParentJoin => exact wp_discard.2 (takesSteps_clearParentJoin linked)
  | remapJoinColumns => exact wp_discard.2 (takesSteps_remapJoinColumns linked)
  | regroup => exact .of_step .regrouped
  | addSequence => exact .of_step .supplying
  | removeSequence => exact wp_discard.2 takesSteps_removeSequence

theorem Request.steps_after (h : c.Intact) (request : Request) : c.Steps (request.after c) := by
  have steps := request.takesSteps h.toNumbered h.toLinked
  unfold TakesSteps WP at steps
  unfold after outcome
  revert steps
  cases request.run c with
  | ok => exact id
  | error =>
    rintro rfl
    exact .refl

/-- No step of an edit takes an intact catalog apart. -/
theorem Intact.step (h : c.Intact) (taken : c.Step c') : c'.Intact := by
  cases taken with
  | created => exact h.created
  | renamed => exact h.renamed
  | removed => exact h.removed
  | revised revises => exact h.editing revises.id revises.parentJoin revises.group
  | joined above below off acyclic => exact h.joined below above off acyclic
  | detached => exact h.detached
  | repaired => exact h.repaired
  | regrouped => exact h.regrouped
  | supplying => exact h.supplying
  | unsupplied => exact h.unsupplied

theorem Intact.steps (h : c.Intact) (taken : c.Steps c') : c'.Intact := by
  induction taken with
  | refl => exact h
  | tail _ last ih => exact ih.step last

theorem Intact.after (h : c.Intact) (request : Request) : (request.after c).Intact :=
  h.steps (request.steps_after h)

theorem Step.nextId_le (taken : c.Step c') : c.nextId ≤ c'.nextId := by
  cases taken with
  | created => exact Nat.le_succ _
  | renamed => exact Nat.le_refl _
  | removed => exact Nat.le_of_eq nextId_removed.symm
  | revised => exact Nat.le_refl _
  | joined => exact Nat.le_succ _
  | detached => exact Nat.le_of_eq nextId_detached.symm
  | repaired => exact Nat.le_refl _
  | regrouped => exact nextId_le_regrouped
  | supplying => exact Nat.le_succ _
  | unsupplied => exact Nat.le_refl _

theorem Steps.nextId_le (taken : c.Steps c') : c.nextId ≤ c'.nextId := by
  induction taken with
  | refl => exact Nat.le_refl _
  | tail _ last ih => exact Nat.le_trans ih last.nextId_le

/-- However many calls are made, the counter does not go back. -/
theorem Intact.nextId_le_foldl (h : c.Intact) (requests : List Request) :
    c.nextId ≤ (requests.foldl Request.after c).nextId := by
  induction requests generalizing c with
  | nil => exact Nat.le_refl _
  | cons request rest ih =>
    exact Nat.le_trans (request.steps_after h).nextId_le (ih (h.after request))

end GroupedTables.Catalog
