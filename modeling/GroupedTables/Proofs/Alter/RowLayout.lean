import GroupedTables.Proofs.Alter.Altering
import GroupedTables.Proofs.Alter.Elements
import GroupedTables.Record.Layout
import Mathlib.Data.List.Forall2
import Mathlib.Data.List.Perm.Subperm

/-!
# When rows are kept

Below the level of the whole table rows stay as they are, so the fields of the planned table
have to be those of the current one. The level is found by tracing each planned column back
through the change list to the column it was. Types are compared along the trace, and the
positions on it must not go down; that no column is traced to twice is not checked. It is
what the layout depends on, and a statement that changes every column in one way only has it.
-/

namespace GroupedTables

open GroupedTables.Action Catalog

variable {live : Catalog} {current d : Table} {changes : List Change} {traced : List Column}
  {name old : String}

theorem forall₂_of_mapM {α β : Type} {f : α → Option β} {l : List α} {l' : List β}
    (h : l.mapM f = some l') : List.Forall₂ (fun a b => f a = some b) l l' := by
  induction l generalizing l' with
  | nil =>
    cases h
    exact .nil
  | cons a rest ih =>
    rw [List.mapM_cons] at h
    obtain ⟨b, first, h⟩ := Option.bind_eq_some_iff.1 h
    obtain ⟨rest', others, h⟩ := Option.bind_eq_some_iff.1 h
    cases h
    exact .cons first (ih others)

theorem mapM_of_forall₂ {α β : Type} {f : α → Option β} {l : List α} {l' : List β}
    (h : List.Forall₂ (fun a b => f a = some b) l l') : l.mapM f = some l' := by
  induction h with
  | nil => rfl
  | cons first _ ih =>
    rw [List.mapM_cons, first, ih]
    rfl

namespace Level

/-- The level of the table outdoes that of indexes, and both outdo that of the catalog. -/
theorem joinAll_eq (levels : List Level) : joinAll levels =
    if .table ∈ levels then .table else if .index ∈ levels then .index else .metadata := by
  have general (first : Level) : levels.foldl join first =
      if .table ∈ first :: levels then .table
      else if .index ∈ first :: levels then .index else .metadata := by
    induction levels generalizing first with
    | nil => cases first <;> rfl
    | cons second rest ih =>
      rw [List.foldl_cons, ih]
      cases first <;> cases second <;> simp [join, rank]
  rw [joinAll, general]
  simp

theorem joinAll_eq_table_iff {levels : List Level} :
    joinAll levels = .table ↔ .table ∈ levels := by
  rw [joinAll_eq]
  split
  · exact iff_of_true rfl ‹_›
  · split <;> exact iff_of_false nofun ‹_›

/-- Below the level of the table, rows are kept. -/
theorem keepsRows_of_classify {target : Staged} {columnChanges indexChanges : List Change}
    {level : Level} (found : live.tables.get? current.id = some current)
    (defined : target.definition = .ok d)
    (classified : classify live current.id target columnChanges indexChanges = .ok level)
    (cheap : level ≠ .table) : keepsRows current d columnChanges = true := by
  unfold classify at classified
  rw [table_of_get? found, defined] at classified
  obtain ⟨_, ⟨⟩, classified⟩ := Check.bind_eq_ok.1 classified
  obtain ⟨_, ⟨⟩, classified⟩ := Check.bind_eq_ok.1 classified
  obtain ⟨_, _, classified⟩ := Check.bind_eq_ok.1 classified
  obtain ⟨_, _, classified⟩ := Check.bind_eq_ok.1 classified
  obtain ⟨grouping, _, classified⟩ := Check.bind_eq_ok.1 classified
  cases classified
  cases kept : keepsRows current d columnChanges with
  | true => rfl
  | false =>
    have columns : ofColumns current d columnChanges = .table := by
      rw [ofColumns, kept]
      rfl
    exact absurd (joinAll_eq_table_iff.2 (columns ▸ .head _)) cheap

theorem ascending_iff {numbers : List Nat} :
    ascending numbers = true ↔ numbers.Pairwise (· ≤ ·) := by
  induction numbers with
  | nil => exact iff_of_true rfl .nil
  | cons a rest ih =>
    cases rest with
    | nil => exact iff_of_true rfl (List.pairwise_singleton ..)
    | cons b rest =>
      rw [ascending, Bool.and_eq_true, decide_eq_true_iff, ih]
      constructor
      · rintro ⟨le, others⟩
        refine others.cons (List.forall_mem_cons.2 ⟨le, fun x inside => ?_⟩)
        exact Nat.le_trans le ((List.pairwise_cons.1 others).1 x inside)
      · intro h
        exact ⟨(List.pairwise_cons.1 h).1 b (.head _), (List.pairwise_cons.1 h).2⟩

/-- The columns that the columns of a table are traced back to, where rows are kept. -/
structure Traces (before after : Table) (changes : List Change) (traced : List Column) :
    Prop where
  kept : ∀ column ∈ before.columns, (Change.finalName? changes column.name).isSome
  former : List.Forall₂ (fun a b => former? before changes a = some b) after.columns traced
  alike : after.columns.map (·.descriptor) = traced.map (·.descriptor)
  ascending : (traced.map (·.position)).Pairwise (· ≤ ·)

theorem traces_of_keepsRows {before after : Table}
    (h : keepsRows before after changes = true)
    (mapped : after.columns.mapM (former? before changes) = some traced) :
    Traces before after changes traced := by
  have former := forall₂_of_mapM mapped
  rw [keepsRows, mapped, Bool.and_eq_true, Bool.and_eq_true] at h
  obtain ⟨kept, same, sorted⟩ := h
  refine ⟨List.all_eq_true.1 kept, former, ?_, ascending_iff.1 sorted⟩
  have alike : List.Forall₂ (fun old new : Column => old.descriptor = new.descriptor)
      traced after.columns := by
    refine List.forall₂_iff_zip.2 ⟨former.length_eq.symm, fun {old new} paired => ?_⟩
    have keeps : (!rebuildsRow old new) = true := List.all_eq_true.1 same (old, new) paired
    rw [rebuildsRow, Bool.not_eq_true', Bool.or_eq_false_iff, bne_eq_false_iff_eq] at keeps
    exact keeps.1
  apply Eq.symm
  rw [← List.forall₂_eq_eq_eq, List.forall₂_map_left_iff, List.forall₂_map_right_iff]
  exact alike

namespace Traces

variable {before after : Table} (h : Traces before after changes traced)

include h

theorem subset : traced ⊆ before.columns := by
  intro b inside
  obtain ⟨a, _, former⟩ := exists_of_forall₂ h.former inside
  obtain ⟨_, _, found⟩ := Option.bind_eq_some_iff.1 former
  exact List.mem_of_find?_eq_some found

/-- If no column is dropped, a table has no fewer columns than before. -/
theorem length_le {added : List String}
    (names : after.columnNames = Drafts.keptNames changes before.columns ++ added) :
    before.columns.length ≤ after.columns.length := by
  have all : (Drafts.keptNames changes before.columns).length = before.columns.length := by
    rw [Drafts.keptNames, List.length_filterMap_eq_countP, List.countP_eq_length]
    exact h.kept
  have total := congrArg List.length names
  rw [Table.columnNames, List.length_map, List.length_append, all] at total
  omega

/-- The trace leads back to all columns in their order just if it leads to none twice. -/
theorem eq_columns_iff (positioned : before.Positioned)
    (le : before.columns.length ≤ after.columns.length) :
    traced = before.columns ↔ traced.Nodup := by
  have apart : (before.columns.map (·.position)).Nodup := by
    rw [positioned]
    exact List.nodup_range
  constructor
  · intro same
    exact same ▸ apart.of_map
  · intro distinct
    have all : traced.Perm before.columns :=
      (List.subperm_of_subset distinct h.subset).perm_of_length_le (h.former.length_eq ▸ le)
    have sorted : before.columns.Pairwise fun a b => a.position ≤ b.position := by
      rw [← List.pairwise_map (f := Column.position) (R := (· ≤ ·)), positioned]
      exact List.pairwise_le_range
    refine List.Perm.eq_of_pairwise ?_ (List.pairwise_map.1 h.ascending) sorted all
    intro a b inside inside' below above
    exact List.inj_on_of_nodup_map apart (h.subset inside) inside' (Nat.le_antisymm below above)

/-- Where no column is changed in two ways, the trace leads to none twice. -/
theorem nodup_of_consistent (consistent : Change.Consistent changes)
    (distinct : after.columnNames.Nodup)
    (named : ∀ name ∈ after.columnNames,
      .add name ∈ changes ∨ ∃ old, Change.finalName? changes old = some name) : traced.Nodup := by
  have back : List.Forall₂ (fun a b : Column => some a.name = Change.finalName? changes b.name)
      after.columns traced := by
    apply (forall₂_mem h.former).imp
    rintro a b ⟨former, inside, _⟩
    obtain ⟨old, former, found⟩ := Option.bind_eq_some_iff.1 former
    obtain rfl := Table.name_of_column? found
    exact (consistent.finalName?_of_formerName? (named _ (List.mem_map_of_mem inside)) former).symm
  have finals : after.columns.map (fun a => some a.name) =
      traced.map fun b => Change.finalName? changes b.name := by
    rw [← List.forall₂_eq_eq_eq, List.forall₂_map_left_iff, List.forall₂_map_right_iff]
    exact back
  have apart : (after.columns.map fun a => some a.name).Nodup := by
    have apart := distinct.map fun _ _ => Option.some.inj
    rw [Table.columnNames, List.map_map] at apart
    exact apart
  rw [finals] at apart
  exact apart.of_map

end Traces

end Level

namespace Edits

/-- Every column that is added is in the change list. -/
def Listed (e : Edits) : Prop :=
  ∀ name ∈ e.columns.flatMap ColumnEdit.addedNames, Change.add name ∈ e.columnChanges

end Edits

/-- The edits of a statement list every column that they add. -/
theorem Route.listed {elements : List Element} {e : Edits}
    (route : Route.ofElements current elements = .ok (.edit e)) : e.Listed := by
  obtain rfl := Route.edits_eq route
  exact fun name inside => Edits.mem_addedNames_iff.1 inside

/-- The planned table has the fields of the current one, and so the same row layout. -/
def SameRows (before after : Table) : Prop :=
  after.columns.length = before.columns.length ∧
    after.columns.map (·.descriptor) = before.columns.map (·.descriptor) ∧
    Record.Layout.ofTable after = Record.Layout.ofTable before

variable {σ : Type} {p : Planner σ} {e : Edits} {elements : List Element} {plan : Planner.Plan}
  {k k' : Context} {level : Level}

/-- Below the level of the table, the planned columns have the types of the columns they are
traced back to. These are the columns of the current table in their order just if none of them
is traced to twice, and then rows are laid out as before. No column is traced to twice if the
statement changes none in two ways. -/
theorem Planner.sameRows_of_traced_apart (wf : live.WellFormed)
    (found : live.tables.get? current.id = some current)
    (route : Route.ofElements current elements = .ok (.edit e))
    (planned : p.plan live current.id current e k = .ok plan k')
    (classified : Level.classify live current.id plan.staged plan.columnChanges
      plan.indexChanges = .ok level) (cheap : level ≠ .table) :
    ∃ d traced, plan.staged.definition = .ok d ∧
      d.columns.mapM (Level.former? current plan.columnChanges) = some traced ∧
      (SameRows current d ↔
        traced.map (·.descriptor) = current.columns.map (·.descriptor)) ∧
      (traced = current.columns ↔ traced.Nodup) ∧
      (traced.Nodup → SameRows current d) ∧
      (Change.Consistent plan.columnChanges → traced.Nodup) := by
  obtain ⟨fits, changes, names⟩ := (p.wp_plan wf found e k).ok planned
  obtain ⟨d, there, drafted⟩ := fits.drafts.itself
  have defined := fits.definition_eq there
  have keeps := Level.keepsRows_of_classify found defined classified cheap
  have listed := drafted.listed.trans names
  rw [← changes] at listed
  obtain ⟨traced, mapped⟩ : ∃ traced,
      d.columns.mapM (Level.former? current plan.columnChanges) = some traced := by
    cases mapped : d.columns.mapM (Level.former? current plan.columnChanges) with
    | some traced => exact ⟨traced, rfl⟩
    | none => rw [Level.keepsRows, mapped, Bool.and_false] at keeps; cases keeps
  have traces := Level.traces_of_keepsRows keeps mapped
  have same : SameRows current d ↔
      traced.map (·.descriptor) = current.columns.map (·.descriptor) := by
    rw [← traces.alike]
    constructor
    · rintro ⟨_, same, _⟩
      exact same
    · intro same
      refine ⟨?_, same, ?_⟩
      · simpa using congrArg List.length same
      · rw [Record.Layout.ofTable, same, Record.Layout.ofTable]
  have all := traces.eq_columns_iff (wf.positioned found) (traces.length_le listed)
  refine ⟨d, traced, defined, mapped, same, all, fun apart => same.2 ?_, fun consistent => ?_⟩
  · rw [all.2 apart]
  · apply traces.nodup_of_consistent consistent drafted.distinct
    intro name inside
    rw [listed] at inside
    obtain kept | added := List.mem_append.1 inside
    · obtain ⟨column, _, final⟩ := List.mem_filterMap.1 kept
      exact .inr ⟨column.name, final⟩
    · exact .inl (changes ▸ Route.listed route name added)

/-- Renaming the customer of the orders keeps their rows. -/
theorem Planner.sameRows_of_traced_apart_shop : ∃ e plan k d,
    Route.ofElements orders [.renameColumn "customer" "client"] = .ok (.edit e) ∧
    swapping.plan shop 2 orders e {} = .ok plan k ∧
    Level.classify shop 2 plan.staged plan.columnChanges plan.indexChanges = .ok .metadata ∧
    plan.staged.definition = .ok d ∧ SameRows orders d := by
  have route : Route.ofElements orders [.renameColumn "customer" "client"] =
      .ok (.edit { columnChanges := [.modify "customer" "client"] }) := rfl
  obtain ⟨plan, k, planned, changes, classified⟩ := exists_ok_of_wp (show
    WP (swapping.plan shop 2 orders { columnChanges := [.modify "customer" "client"] })
      (fun plan _ => plan.columnChanges = [.modify "customer" "client"] ∧
        Level.classify shop 2 plan.staged plan.columnChanges plan.indexChanges = .ok .metadata)
      (fun _ _ => False) {} by decide +kernel)
  obtain ⟨d, traced, defined, _, _, _, same, apart⟩ := sameRows_of_traced_apart shop_wellFormed
    (by decide +kernel) route planned classified nofun
  refine ⟨_, plan, k, d, route, planned, classified, defined, same (apart ?_)⟩
  rw [changes]
  rintro _ (_ | ⟨_, ⟨⟩⟩) _ (_ | ⟨_, ⟨⟩⟩) _ _
  rfl

/-- A column of the orders may be null from now on, gets another name, and a new column gets
that name. The level is that of the catalog alone, and the new column is in no row. -/
theorem Planner.not_sameRows_of_changed_twice : ∃ e plan k d,
    Route.ofElements orders [.modifyColumn "customer" .null, .renameColumn "customer" "client",
      .addColumn { name := "client", descriptor := .ofType .bigInt }] = .ok (.edit e) ∧
    swapping.plan shop 2 orders e {} = .ok plan k ∧
    Level.classify shop 2 plan.staged plan.columnChanges plan.indexChanges = .ok .metadata ∧
    plan.staged.definition = .ok d ∧ d.columns.length = orders.columns.length + 1 ∧
    ¬ SameRows orders d := by
  obtain ⟨plan, k, planned, classified, counted⟩ := exists_ok_of_wp (show
    WP (swapping.plan shop 2 orders {
        columnChanges := [.modify "customer" "customer", .modify "customer" "client", .add "client"]
        columns := [.modify "customer" .null,
          .add { name := "client", descriptor := .ofType .bigInt }] })
      (fun plan _ =>
        Level.classify shop 2 plan.staged plan.columnChanges plan.indexChanges = .ok .metadata ∧
        plan.staged.definition.map (·.columns.length) = .ok 3)
      (fun _ _ => False) {} by decide +kernel)
  cases defined : plan.staged.definition with
  | error f => rw [defined] at counted; cases counted
  | ok d =>
    rw [defined] at counted
    have longer : d.columns.length = orders.columns.length + 1 := Except.ok.inj counted
    refine ⟨_, plan, k, d, rfl, planned, classified, defined, longer, fun same => ?_⟩
    exact absurd (longer.symm.trans same.1) (Nat.succ_ne_self _)

end GroupedTables
