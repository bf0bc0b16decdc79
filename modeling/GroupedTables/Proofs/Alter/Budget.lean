import GroupedTables.Proofs.Alter.Altering
import GroupedTables.Proofs.Catalog.Spending

/-!
# What an alteration spends

Replacing a definition takes an id for each new sequence and each join of the table, and grouping
afresh one for each tree. A swap does this twice, on trial and in earnest, and groups once more
when it drops a table. So what an alteration spends is bounded by the tables, joins and columns of
the catalog and what the statement adds, and if that many ids are left they are words.
-/

namespace GroupedTables

open GroupedTables.Action Catalog Memory

variable {σ τ α : Type} {tables columns more ids : Nat} {config : Config} {target : Staged}
  {name : TableName}

namespace Spends

theorem within {read : σ → Catalog} {part : τ → σ} {write : σ → τ → τ}
    {act : Numbering → Action σ α} (written : ∀ s t, part (write s t) = s)
    (h : Spends read tables columns more ids act) :
    Spends (read ∘ part) tables columns more ids fun N => (act N).within part write where
  spent last t bounded := by
    apply wp_within.2
    refine (h.spent bounded).mono (fun _ s ended => ?_) fun _ s ended => ?_
    · rwa [Function.comp_apply, written]
    · rwa [Function.comp_apply, written]
  same last t bounded room := by
    have ended := h.same bounded room
    unfold Action.within
    rw [ended]

theorem edit {act : Numbering → Edit α} (h : Spends id tables columns more ids act) :
    Spends catalog tables columns more ids fun N => Memory.edit (act N) :=
  h.allOrNothing.within fun _ _ => rfl

theorem check {act : Numbering → Edit α} (h : Spends id tables columns more ids act) :
    Spends catalog tables columns 0 ids fun N => Memory.check (act N) where
  spent last m bounded := by
    have left := bounded.mono (Nat.le_refl tables) (Nat.le_add_right last ids)
    exact wp_check (fun _ _ _ => left) fun _ _ _ => left
  same last m bounded room := by
    have ended := h.same bounded room
    refine (bind_of_ok rfl).trans (Eq.trans ?_ (bind_of_ok rfl).symm)
    rw [ended]

end Spends

namespace Memory

theorem spends_record (event : Event) :
    Spends catalog tables columns 0 0 fun _ => record event :=
  .of_maintains fun _ => maintains_modify fun _ bounded => bounded

section

variable (tables columns)

theorem spends_adoptSequence (table : TableId) (target : Staged) (column : String)
    (s : SequenceId) :
    Spends id tables columns 0 1 fun _ => adoptSequence table target column s := by
  refine .lift_bind fun staged _ => .idle_bind (fun _ => maintains_get) fun c => ?_
  refine .ite (.done ()) ?_
  refine .bind_idle (spends_addSequence tables columns staged) fun fresh last => ?_
  exact maintains_editTable fun _ => (inNumbers_bounded _ columns last).edited fun _ =>
    Table.length_columns_withColumnChanged

theorem spends_adoptSequences (table : TableId) (target : Staged) :
    Spends id tables columns 0 columns fun _ => adoptSequences table target := by
  refine .get_bind fun last c bounded => .lift_bind fun t there => ?_
  have few : (identities t).length ≤ columns :=
    Nat.le_trans (List.length_filterMap_le _ _) (bounded.columns (table_eq_ok_iff.1 there))
  refine .mono (.forM fun (column, s) _ => ?_) (Nat.le_refl _) few
  exact spends_adoptSequence tables columns table target column s

theorem spends_attachParent (table : TableId) (target : Staged) :
    Spends id tables columns 0 1 fun _ => attachParent table target := by
  refine .lift_bind fun above _ => ?_
  cases above with
  | none => exact .done ()
  | some j => exact (spends_addJoin tables columns j.parent table j.columns).discard

theorem maintains_onLiveChild {P : Catalog → Prop} {act : Edit Unit} (j : Join)
    (h : Maintains P act) : Maintains P (onLiveChild j act) :=
  maintains_get.bind fun _ => .ite h (maintains_pure _)

theorem spends_attachJoins (table : TableId) (target : Staged) :
    Spends id tables columns 0 (1 + (target.catalog.childJoins target.table).length)
      fun _ => attachJoins table target := by
  refine .bind_zero (spends_attachParent tables columns table target) fun _ => .forM fun j _ => ?_
  refine .idle_bind (fun _ => maintains_get) fun c => ?_
  refine .ite (spends_addJoin tables columns table j.child j.columns).discard ?_
  exact .done ()

theorem spends_settle : Spends id tables columns 0 tables fun _ => settle :=
  (spends_regroup tables columns).bind_idle fun _ _ => maintains_get.bind fun _ => maintains_lift _

theorem spends_takeOver (table : TableId) (target : Staged) :
    Spends id tables columns 0
      (columns + (1 + (target.catalog.childJoins target.table).length + tables))
      fun _ => takeOver table target := by
  refine .bind_zero (spends_adoptSequences tables columns table target) fun _ => ?_
  refine .idle_bind (fun last => .forM fun j => ?_) fun _ => ?_
  · have numbers := inNumbers_bounded tables columns last
    exact maintains_onLiveChild j (numbers.maintains_clearParentJoin _).discard
  · exact .bind_zero (spends_attachJoins tables columns table target) fun _ =>
      spends_settle tables columns

theorem maintains_sweepSequence {last : Nat} (s : SequenceId) :
    Maintains (Bounded tables columns last) (sweepSequence s) :=
  maintains_get.bind fun _ =>
    .ite ((inNumbers_bounded tables columns last).maintains_removeSequence s).discard
      (maintains_pure _)

theorem spends_replaceDefinition (table : TableId)
    (narrow : ∀ d, target.definition = .ok d → d.columns.length ≤ columns) :
    Spends id tables columns 0
      (columns + (1 + (target.catalog.childJoins target.table).length + tables))
      fun _ => replaceDefinition table target := by
  refine .lift_bind fun staged defined => .idle_bind (fun _ => maintains_get) fun c => ?_
  refine .lift_bind fun t _ => .idle_bind (fun _ => maintains_get) fun c => ?_
  have cleared (last : Nat) (k : TableId) :=
    ((inNumbers_bounded tables columns last).maintains_clearParentJoin k).discard
  refine .idle_bind (fun last => .forM (cleared last)) fun _ => ?_
  refine .idle_bind (fun last => cleared last table) fun _ => .idle_bind (fun _ => ?_) fun _ => ?_
  · exact maintains_editTable fun _ bounded => bounded.modify fun _ _ => narrow staged defined
  refine .bind_zero (spends_adoptSequences tables columns table target) fun _ => ?_
  refine .idle_bind (fun _ => .forM (maintains_sweepSequence tables columns)) fun _ => ?_
  exact .bind_zero (spends_attachJoins tables columns table target) fun _ =>
    spends_settle tables columns

theorem spends_removeNamed (name : TableName) :
    Spends id tables columns 0 tables fun _ => removeNamed name := by
  refine .idle_bind (fun _ => maintains_get) fun c => .lift_bind fun t _ => ?_
  have removed (last : Nat) := (maintains_removeTable tables columns last t.id).discard
  refine .idle_bind removed fun _ => ?_
  exact .bind_idle (spends_regroup tables columns) fun _ _ => maintains_pure _

theorem spends_dropTable (name : TableName) :
    Spends catalog tables columns 0 tables fun _ => dropTable name := by
  refine .bind_idle (spends_removeNamed tables columns name).edit fun id last => ?_
  exact .bind (maintains_modify fun _ bounded => bounded) fun _ =>
    maintains_modify fun _ bounded => bounded

theorem maintains_renameNamed {last : Nat} (name newName : TableName) :
    Maintains (Bounded tables columns last) (renameNamed name newName) :=
  maintains_get.bind fun _ => (maintains_lift _).bind fun _ =>
    (maintains_requireUnused _).bind fun _ =>
      (inNumbers_bounded tables columns last).maintains_renameTable _ _

theorem spends_renameTable (name newName : TableName) :
    Spends catalog tables columns 0 0 fun _ => Memory.renameTable name newName := by
  have renamed : Spends id tables columns 0 0 fun _ => renameNamed name newName :=
    .of_maintains fun _ => maintains_renameNamed tables columns name newName
  exact .bind_idle renamed.edit fun _ _ => maintains_modify fun _ bounded => bounded

variable {columns}

theorem spends_createNamed {definition : Table} (narrow : definition.columns.length ≤ columns) :
    Spends catalog tables columns 1 1 fun _ => Memory.createTable definition := by
  refine .bind_idle (spends_createTable tables columns narrow).edit fun id last => ?_
  exact .bind (maintains_modify fun _ bounded => bounded) fun _ => maintains_pure id

/-- The trial run of a swap. -/
theorem spends_rehearse (config : Config) (name : TableName)
    (narrow : ∀ d, target.definition = .ok d → d.columns.length ≤ columns) :
    Spends id tables columns 1 (1 + (tables + 1 +
      (columns + (1 + (target.catalog.childJoins target.table).length + (tables + 1)))))
      fun _ => rehearse config name target := by
  refine .idle_bind (fun _ => maintains_get) fun c => .lift_bind fun old _ => ?_
  refine .lift_bind fun d defined => ?_
  have created : Spends id tables columns 1 1 fun _ =>
      Catalog.createTable { d with name := ⟨name.schema, config.temporaryNew⟩ } :=
    spends_createTable tables columns (narrow d defined)
  refine .bind created fun x => ?_
  refine .idle_bind (fun last => (maintains_removeTable _ columns last old.id).discard) fun _ => ?_
  refine .idle_bind (fun last => (inNumbers_bounded _ columns last).maintains_renameTable x name)
    fun _ => ?_
  exact .bind_zero (spends_regroup _ columns) fun _ => spends_takeOver _ columns x target

/-- The steps of a swap, with those that are taken back. -/
theorem spends_execute {w : Swap} {copier : Copier Memory} (confined : Confined copier)
    (narrow : w.definition.columns.length ≤ columns) :
    Spends catalog tables columns 1 (1 + (tables + 1 + (tables + 1)))
      fun _ => w.execute tableActions copier := by
  have copied (last : Nat) : Maintains (fun m => m.catalog.Bounded (tables + 1) columns last)
      (copier w.name w.temporaryNew) := fun m bounded =>
    (confined _ _ m).mono (fun _ _ added => added.catalog ▸ bounded)
      fun _ _ added => added.catalog ▸ bounded
  have renamed (name newName : TableName) := spends_renameTable (tables + 1) columns name newName
  have moved : Spends catalog (tables + 1) columns 0 (tables + 1) fun _ =>
      w.moveIn tableActions := by
    have dropped := spends_dropTable (tables + 1) columns w.temporaryOld
    refine .mono (.bind_zero (renamed _ _) fun _ => dropped.orUndo (renamed _ _)) (Nat.le_refl _) ?_
    omega
  have exchanged : Spends catalog (tables + 1) columns 0 (tables + 1) fun _ =>
      w.exchange tableActions copier := by
    refine .idle_bind copied fun _ => ?_
    refine .mono (.bind_zero (renamed _ _) fun _ => moved.orUndo (renamed _ _)) (Nat.le_refl _) ?_
    omega
  have created : Spends catalog tables columns 1 1 fun _ =>
      Memory.createTable { w.definition with name := w.temporaryNew } :=
    spends_createNamed tables narrow
  refine .bind created fun x => .bind_idle ?_ fun _ _ => maintains_pure x
  exact exchanged.orUndo (spends_dropTable (tables + 1) columns w.temporaryNew)

theorem spends_swapTable (config : Config) {copier : Copier Memory} (confined : Confined copier)
    (name : TableName) (narrow : ∀ d, target.definition = .ok d → d.columns.length ≤ columns) :
    Spends catalog tables columns 1
      (5 * tables + 2 * (columns + (target.catalog.childJoins target.table).length) + 9)
      fun _ => swapTable config copier name target := by
  have tried : Spends catalog tables columns 0 _ fun _ => check (rehearse config name target) :=
    (spends_rehearse tables config name narrow).check
  refine .mono (.bind_zero tried fun _ => .lift_bind fun d defined =>
    .bind (spends_execute tables confined (narrow d defined)) fun x =>
      (spends_takeOver (tables + 1) columns x target).edit) (Nat.le_refl _) ?_
  omega

theorem spends_alterTable (config : Config) {copier : Copier Memory} (confined : Confined copier)
    (name : TableName) (narrow : ∀ d, target.definition = .ok d → d.columns.length ≤ columns)
    (columnChanges indexChanges : List Change) :
    Spends (catalog ∘ Run.state) tables columns 1
      (5 * tables + 2 * (columns + (target.catalog.childJoins target.table).length) + 9)
      fun _ => Memory.alterTable config copier name target columnChanges indexChanges := by
  refine .idle_bind (fun _ => maintains_get) fun r => .lift_bind fun t _ => ?_
  refine .lift_bind fun level _ => ?_
  have watched (last : Nat) : Maintains (fun r => (r.state.catalog).Bounded tables columns last)
      (Run.onContext (σ := Memory) Context.checkCancelled) := fun r bounded =>
    wp_within.2 (Context.wp_checkCancelled (fun _ _ _ => bounded) fun _ => bounded)
  refine .idle_bind watched fun _ => .bind_idle (.within (fun _ _ => rfl) ?_) fun _ _ =>
    maintains_pure level
  have replaced := (spends_replaceDefinition tables columns t.id narrow).edit
  have swapped := spends_swapTable tables config confined name narrow
  refine .ite (swapped.bind fun _ => spends_record _) ?_
  refine .mono (replaced.bind fun _ => spends_record _) (Nat.zero_le _) ?_
  omega

end

end Memory

end GroupedTables
