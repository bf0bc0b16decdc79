import GroupedTables.Proofs.Alter.Accounting
import GroupedTables.Proofs.Alter.RowLayout

/-!
# When which level is told

The level is the most expensive of what columns, indexes and the parent cost, each found by looking
names up in the change lists in both directions. For a plan the look-ups tell the truth: the columns
of the table as it was are found again from those that are there in the end, and the indexes and
joins that no list speaks of are the same. So rows are written anew just where something about them
is another, and indexes are built just where the list names one.
-/

namespace GroupedTables

open GroupedTables.Action Catalog

variable {live : Catalog} {current d before after : Table}
  {changes columnChanges indexChanges : List Change} {change : Change} {elements : List Element}
  {name old : String} {added : List String} {a b : Column} {target : Staged}

namespace Level

theorem joinAll_append {levels free : List Level} (all : ∀ level ∈ free, level = .metadata) :
    joinAll (levels ++ free) = joinAll levels := by
  have only {level : Level} (costs : level ≠ .metadata) :
      level ∈ levels ++ free ↔ level ∈ levels := by
    rw [List.mem_append, or_iff_left]
    exact fun inside => costs (all level inside)
  have rows : .table ∈ levels ++ free ↔ .table ∈ levels := only nofun
  have indexes : .index ∈ levels ++ free ↔ .index ∈ levels := only nofun
  simp only [joinAll_eq, rows, indexes]

theorem joinAll_eq_metadata_iff {levels : List Level} :
    joinAll levels = .metadata ↔ ∀ level ∈ levels, level = .metadata := by
  rw [joinAll_eq]
  constructor
  · intro free level inside
    cases level with
    | metadata => rfl
    | index => by_cases rows : .table ∈ levels <;> simp [rows, inside] at free
    | table => simp [inside] at free
  · intro all
    have rows : .table ∉ levels := fun inside => nomatch all _ inside
    have indexes : .index ∉ levels := fun inside => nomatch all _ inside
    rw [if_neg rows, if_neg indexes]

end Level

theorem forall₂_of_filterMap {α β γ : Type} {f : α → Option γ} {g : β → γ} {l : List α}
    {l' : List β} (all : ∀ a ∈ l, (f a).isSome) (same : l'.map g = l.filterMap f) :
    List.Forall₂ (fun b a => f a = some (g b)) l' l := by
  induction l generalizing l' with
  | nil =>
    cases List.map_eq_nil_iff.1 same
    exact .nil
  | cons a rest ih =>
    obtain ⟨c, found⟩ := Option.isSome_iff_exists.1 (all a (.head _))
    rw [List.filterMap_cons_some found] at same
    obtain ⟨b, rest', rfl, first, others⟩ := List.map_eq_cons_iff.1 same
    exact .cons (found.trans (congrArg some first.symm))
      (ih (fun a inside => all a (.tail _ inside)) others)

namespace Level

/-- A table whose columns are those kept of another table, by their names now, and those added. -/
structure Renames (before after : Table) (changes : List Change) (added : List String) : Prop where
  consistent : Change.Consistent changes
  names : after.columnNames = Drafts.keptNames changes before.columns ++ added
  distinct : after.columnNames.Nodup
  added_iff : ∀ name, name ∈ added ↔ .add name ∈ changes
  listed : ∀ change ∈ changes, change.isAdd = true ∨ change.name ∈ before.columnNames

namespace Renames

variable (h : Renames before after changes added)

include h

theorem not_added (inside : a ∈ before.columns)
    (final : Change.finalName? changes a.name = some name) : name ∉ added := by
  have distinct := h.names ▸ h.distinct
  intro new
  exact List.disjoint_of_nodup_append distinct (List.mem_filterMap.2 ⟨a, inside, final⟩) new

/-- No two columns end up under one name. -/
theorem eq_of_finalName? (inside : a ∈ before.columns) (inside' : b ∈ before.columns)
    (final : Change.finalName? changes a.name = some name)
    (final' : Change.finalName? changes b.name = some name) : a = b :=
  eq_of_nodup_filterMap (List.Nodup.of_append_left (h.names ▸ h.distinct)) inside inside' final
    final'

/-- A column that is kept is found again from the name it has in the end. -/
theorem former?_eq (inside : a ∈ before.columns)
    (final : Change.finalName? changes a.name = some b.name) :
    former? before changes b = some a := by
  have named : Change.formerName? changes b.name = some a.name := by
    refine Change.formerName?_of_finalName? final ?_ fun other renamed => ?_
    · intro added
      exact h.not_added inside final ((h.added_iff _).2 added)
    · obtain ⟨c, inside', rfl⟩ := List.mem_map.1 ((h.listed _ renamed).resolve_left nofun)
      rw [h.eq_of_finalName? inside inside' final (h.consistent.finalName?_of_mem renamed rfl)]
  rw [former?, named, Option.bind_some]
  have there : (before.column? a.name).isSome = true :=
    Table.column?_isSome_iff.2 (List.mem_map_of_mem inside)
  obtain ⟨c, found⟩ := Option.isSome_iff_exists.1 there
  have same := Table.name_of_column? found
  rw [found, h.eq_of_finalName? inside (List.mem_of_find?_eq_some found) final (same ▸ final)]

/-- Rows are kept just if no column is new, none is gone, and none has to be written anew. -/
theorem keepsRows_iff (positioned : before.Positioned) :
    keepsRows before after changes = true ↔ added = [] ∧
      (∀ old ∈ before.columns, (Change.finalName? changes old.name).isSome = true) ∧
      ∀ old ∈ before.columns, ∀ new ∈ after.columns,
        Change.finalName? changes old.name = some new.name → rebuildsRow old new = false := by
  constructor
  · intro keeps
    cases mapped : after.columns.mapM (former? before changes) with
    | none =>
      rw [keepsRows, mapped, Bool.and_false] at keeps
      cases keeps
    | some traced =>
      have former := forall₂_of_mapM mapped
      rw [keepsRows, mapped, Bool.and_eq_true, Bool.and_eq_true] at keeps
      obtain ⟨kept, same, _⟩ := keeps
      have paired : List.Forall₂ (fun old new => former? before changes new = some old ∧
          rebuildsRow old new = false) traced after.columns := by
        refine List.forall₂_iff_zip.2 ⟨former.length_eq.symm, fun {old new} inside => ?_⟩
        have rebuilt := List.all_eq_true.1 same (old, new) inside
        exact ⟨(List.forall₂_iff_zip.1 former.flip).2 inside, by simpa using rebuilt⟩
      refine ⟨List.eq_nil_iff_forall_not_mem.2 fun name new => ?_, List.all_eq_true.1 kept, ?_⟩
      · obtain ⟨c, inside, rfl⟩ := List.mem_map.1
          (show name ∈ after.columnNames from h.names ▸ List.mem_append_right _ new)
        obtain ⟨old, _, former, _⟩ := exists_of_forall₂ paired inside
        obtain ⟨oldName, named, found⟩ := Option.bind_eq_some_iff.1 former
        obtain rfl := Table.name_of_column? found
        exact h.not_added (List.mem_of_find?_eq_some found)
          (h.consistent.finalName?_of_formerName? (.inl ((h.added_iff _).1 new)) named) new
      · intro old inside new inside' final
        obtain ⟨old', _, former, keeps⟩ := exists_of_forall₂ paired inside'
        cases (h.former?_eq inside final).symm.trans former
        exact keeps
  · rintro ⟨rfl, kept, keeps⟩
    have names := h.names
    rw [List.append_nil] at names
    have finals : List.Forall₂ (fun new old : Column =>
        Change.finalName? changes old.name = some new.name) after.columns before.columns :=
      forall₂_of_filterMap kept names
    have former : List.Forall₂ (fun new old => former? before changes new = some old)
        after.columns before.columns :=
      (forall₂_mem finals).imp fun _ _ paired => h.former?_eq paired.2.2 paired.1
    have mapped := mapM_of_forall₂ former
    have sorted : ascending (before.columns.map (·.position)) = true := by
      apply ascending_iff.2
      rw [positioned]
      exact List.pairwise_le_range
    rw [keepsRows, mapped, Bool.and_eq_true, Bool.and_eq_true]
    refine ⟨List.all_eq_true.2 kept, List.all_eq_true.2 ?_, sorted⟩
    rintro ⟨old, new⟩ paired
    have final := (List.forall₂_iff_zip.1 finals.flip).2 paired
    have inside := List.of_mem_zip paired
    show (!rebuildsRow old new) = true
    rw [keeps old inside.1 new inside.2 final, Bool.not_false]

end Renames

/-- An index in the change list is built, by writing the table anew if it is the primary one. -/
theorem ofIndexChange_eq_table_iff : ofIndexChange before after change = .table ↔
    ∃ name, (change.oldName? = some name ∨ change.newName? = some name) ∧
      (isPrimary before name = true ∨ isPrimary after name = true) := by
  have building : ∀ primary, ofBuilding primary = .table ↔ primary = true := by decide
  rw [ofIndexChange, building, List.any_eq_true]
  simp only [List.mem_append, Option.mem_toList, Bool.or_eq_true]

theorem ofIndexChange_ne_metadata : ofIndexChange before after change ≠ .metadata := by
  unfold ofIndexChange ofBuilding
  split <;> exact nofun

/-- What is put back as it was, or listed, costs nothing by itself. -/
theorem ofIndexes_eq (h : Reindexed before columnChanges [] indexChanges after.indexes) :
    ofIndexes before after columnChanges indexChanges =
      joinAll (indexChanges.map (ofIndexChange before after)) := by
  have remaining : ∀ i ∈ after.indexes,
      ofRemaining before columnChanges indexChanges i = .metadata := by
    intro i inside
    unfold ofRemaining
    obtain ⟨change, listed, new⟩ | ⟨old, there, same⟩ := h.traced i inside
    · have listed : (indexChanges.any fun c => c.newName? == some i.name) = true :=
        List.any_eq_true.2 ⟨change, listed, beq_iff_eq.2 new⟩
      simp only [listed, Bool.not_true, Bool.false_and, onlyIf, Bool.false_eq_true, if_false]
    · simp only [there, Option.any_some, same, Bool.not_true, Bool.and_false, onlyIf,
        Bool.false_eq_true, if_false]
  have vanished : ∀ i ∈ before.indexes, ofVanished after indexChanges i = .metadata := by
    intro i inside
    obtain ⟨done, cut, all⟩ := h.accounted
    rw [List.append_nil] at cut
    unfold ofVanished
    obtain ⟨new, there, named⟩ | dropped := all i (cut ▸ inside)
    · have there : (after.index? i.name).isSome = true :=
        Table.index?_isSome_iff.2 (List.mem_map.2 ⟨new, there, named⟩)
      simp only [Option.isNone_eq_false_iff.2 there, Bool.and_false, onlyIf, Bool.false_eq_true,
        if_false]
    · simp only [dropped, Option.isSome_some, Bool.not_true, Bool.false_and, onlyIf,
        Bool.false_eq_true, if_false]
  rw [ofIndexes, joinAll_append (List.forall_mem_map.2 vanished),
    joinAll_append (List.forall_mem_map.2 remaining)]

theorem ofIndexes_eq_table_iff (h : Reindexed before columnChanges [] indexChanges after.indexes) :
    ofIndexes before after columnChanges indexChanges = .table ↔
      ∃ change ∈ indexChanges, ∃ name,
        (change.oldName? = some name ∨ change.newName? = some name) ∧
          (isPrimary before name = true ∨ isPrimary after name = true) := by
  rw [ofIndexes_eq h, joinAll_eq_table_iff, List.mem_map]
  simp only [ofIndexChange_eq_table_iff]

theorem ofIndexes_eq_metadata_iff
    (h : Reindexed before columnChanges [] indexChanges after.indexes) :
    ofIndexes before after columnChanges indexChanges = .metadata ↔ indexChanges = [] := by
  rw [ofIndexes_eq h, joinAll_eq_metadata_iff, List.forall_mem_map, List.eq_nil_iff_forall_not_mem]
  exact forall₂_congr fun _ _ => iff_false_intro ofIndexChange_ne_metadata

theorem onlyIf_eq_iff {condition : Bool} : onlyIf condition .table = .table ↔ condition = true := by
  cases condition <;> decide

/-- A table that is under a parent before and after is joined as it was, so the parent costs
something just if it is gone or new. -/
theorem ofGrouping_eq_ok (intact : live.Intact) (found : live.tables.get? current.id = some current)
    (staged : target.catalog.Intact) (same : target.table = current.id)
    (there : target.catalog.tables.get? current.id = some d)
    (rejoined : Rejoined live current columnChanges target.catalog) :
    ofGrouping live current target columnChanges =
      .ok (onlyIf (current.parentJoin.isSome != d.parentJoin.isSome) .table) := by
  have hooks (c : Catalog) (linked : c.Linked) (t : Table)
      (there : c.tables.get? current.id = some t) :
      ((c.hook current.id).bind c.joins.get?).isSome = t.parentJoin.isSome := by
    rw [hook_of_get? there]
    cases hung : t.parentJoin with
    | none => rfl
    | some i =>
      obtain ⟨j, joined, _⟩ := (linked.hook_iff current.id i).1 ((hook_of_get? there).trans hung)
      rw [Option.bind_some, joined]
      rfl
  rw [ofGrouping, same, intact.toLinked.parentJoin_eq ⟨current, found⟩,
    staged.toLinked.parentJoin_eq ⟨d, there⟩, ← hooks live intact.toLinked current found,
    ← hooks target.catalog staged.toLinked d there]
  have alike : sameJoin columnChanges ((live.hook current.id).bind live.joins.get?)
      ((target.catalog.hook current.id).bind target.catalog.joins.get?) =
        (((live.hook current.id).bind live.joins.get?).isSome ==
          ((target.catalog.hook current.id).bind target.catalog.joins.get?).isSome) := by
    cases above : (live.hook current.id).bind live.joins.get? with
    | none =>
      cases (target.catalog.hook current.id).bind target.catalog.joins.get? <;> rfl
    | some j =>
      cases above' : (target.catalog.hook current.id).bind target.catalog.joins.get? with
      | none => rfl
      | some j' =>
        obtain ⟨i, hung, joined⟩ := Option.bind_eq_some_iff.1 above
        obtain ⟨i', hung', joined'⟩ := Option.bind_eq_some_iff.1 above'
        exact rejoined hung joined hung' joined'
  simp only [bind, Except.bind, pure, Except.pure, alike]
  rfl

theorem missingColumn?_toList {t : Table} {name? : Option String}
    (all : ∀ name, name? = some name → name ∈ t.columnNames) :
    t.missingColumn? name?.toList = none := by
  rw [Table.missingColumn?_eq_none_iff]
  exact fun name inside => all name (Option.mem_toList.1 inside)

theorem Renames.checkColumnChange_eq_ok (h : Renames before after changes added)
    (listed : change ∈ changes) : checkColumnChange before after change = .ok () := by
  have old : before.missingColumn? change.oldName?.toList = none :=
    missingColumn?_toList fun name named =>
      Change.mem_columnNames_of_oldName? (h.listed change listed) named
  have new : after.missingColumn? change.newName?.toList = none := by
    apply missingColumn?_toList
    intro name named
    rw [h.names]
    cases change with
    | add =>
      cases named
      exact List.mem_append_right _ ((h.added_iff _).2 listed)
    | drop => cases named
    | modify old new =>
      cases named
      obtain ⟨column, inside, rfl⟩ := List.mem_map.1 ((h.listed _ listed).resolve_left nofun)
      exact List.mem_append_left _ (List.mem_filterMap.2
        ⟨column, inside, h.consistent.finalName?_of_mem listed rfl⟩)
  unfold checkColumnChange
  rw [old, new]
  rfl

theorem checkIndexChange_eq_ok (h : change.Founded before after.indexes) :
    checkIndexChange before after change = .ok () := by
  apply if_pos
  cases change with
  | add new =>
    obtain ⟨i, inside, rfl⟩ := h
    exact Table.index?_isSome_iff.2 (List.mem_map_of_mem inside)
  | drop => exact h
  | modify => exact h.2.1

/-- Lists that fit have a level, and neither the positions of columns nor what the lists do not
speak of counts for it. -/
theorem classify_eq_ok (found : live.tables.get? current.id = some current)
    (defined : target.definition = .ok d) (renames : Renames current d columnChanges added)
    (reindexed : Reindexed current columnChanges [] indexChanges d.indexes) {grouping : Level}
    (grouped : ofGrouping live current target columnChanges = .ok grouping) :
    classify live current.id target columnChanges indexChanges = .ok (joinAll
      [ofColumns current d columnChanges, ofIndexes current d columnChanges indexChanges,
        grouping]) := by
  have columns := Check.forM_eq_ok.2 fun change listed => renames.checkColumnChange_eq_ok listed
  have indexes := Check.forM_eq_ok.2 fun change listed =>
    checkIndexChange_eq_ok (reindexed.founded change listed)
  unfold classify
  rw [table_of_get? found, defined]
  simp only [bind, Except.bind, columns, indexes, grouped, pure, Except.pure]

end Level

/-- What a statement adds, drops and converts is what its rows cannot be kept for. -/
theorem Level.Renames.keepsRows_iff_elements
    (h : Renames before after (elements.filterMap Element.columnChange?) added)
    (positioned : before.Positioned) :
    keepsRows before after (elements.filterMap Element.columnChange?) = true ↔
      (∀ definition, .addColumn definition ∉ elements) ∧
      (∀ name, .dropColumn name ∉ elements) ∧
      ∀ old ∈ before.columns, ∀ new ∈ after.columns,
        Element.Survives elements old.name new.name → rebuildsRow old new = false := by
  have none_added : added = [] ↔ ∀ definition, .addColumn definition ∉ elements := by
    rw [List.eq_nil_iff_forall_not_mem]
    constructor
    · intro none definition inside
      exact none definition.name ((h.added_iff _).2 (List.mem_filterMap.2 ⟨_, inside, rfl⟩))
    · intro none name inside
      obtain ⟨element, there, listed⟩ := List.mem_filterMap.1 ((h.added_iff name).1 inside)
      cases element <;> cases listed
      exact none _ there
  have none_dropped : (∀ old ∈ before.columns, (Change.finalName?
      (elements.filterMap Element.columnChange?) old.name).isSome = true) ↔
        ∀ name, .dropColumn name ∉ elements := by
    constructor
    · intro kept name inside
      have listed : .drop name ∈ elements.filterMap Element.columnChange? :=
        List.mem_filterMap.2 ⟨_, inside, rfl⟩
      obtain ⟨column, there, rfl⟩ := List.mem_map.1 ((h.listed _ listed).resolve_left nofun)
      have final := kept column there
      rw [h.consistent.finalName?_of_mem listed rfl] at final
      cases final
    · intro kept column _
      cases final : Change.finalName? (elements.filterMap Element.columnChange?) column.name with
      | some name => rfl
      | none =>
        unfold Change.finalName? at final
        split at final
        case h_2 => cases final
        case h_1 change first =>
          obtain ⟨element, there, listed⟩ := List.mem_filterMap.1 (Change.mem_of_ofOldName? first)
          have named := Change.oldName?_of_ofOldName? first
          cases element <;> cases listed <;> cases final
          cases named
          exact absurd there (kept _)
  rw [h.keepsRows_iff positioned, none_added, none_dropped]
  simp only [Element.finalName?_eq_some_iff h.consistent]

/-- Why a statement writes every row of its table anew. -/
inductive Rewrites (elements : List Element) (before after : Table) (indexChanges : List Change) :
    Prop where
  | adds {definition : ColumnDefinition} (element : .addColumn definition ∈ elements)
  | drops {name : String} (element : .dropColumn name ∈ elements)
  | converts {old new : Column} (inside : old ∈ before.columns) (inside' : new ∈ after.columns)
    (survives : Element.Survives elements old.name new.name)
    (differ : old.descriptor ≠ new.descriptor ∨ old.nullable = true ∧ new.nullable = false)
  | sorts {change : Change} {name : String} {index : Index} (listed : change ∈ indexChanges)
    (named : change.oldName? = some name ∨ change.newName? = some name)
    (there : before.index? name = some index ∨ after.index? name = some index)
    (primary : index.primary = true)
  | moves (parent : before.parentJoin.isSome ≠ after.parentJoin.isSome)

namespace Level

theorem rebuildsRow_eq_true_iff : rebuildsRow a b = true ↔
    a.descriptor ≠ b.descriptor ∨ a.nullable = true ∧ b.nullable = false := by
  simp [rebuildsRow]

theorem isPrimary_eq_true_iff {t : Table} :
    isPrimary t name = true ↔ ∃ index, t.index? name = some index ∧ index.primary = true :=
  Option.any_eq_true ..

theorem ofColumns_eq_table_iff
    (renames : Renames before after (elements.filterMap Element.columnChange?) added)
    (positioned : before.Positioned) :
    ofColumns before after (elements.filterMap Element.columnChange?) = .table ↔
      (∃ definition, .addColumn definition ∈ elements) ∨
      (∃ name, .dropColumn name ∈ elements) ∨
      ∃ old ∈ before.columns, ∃ new ∈ after.columns,
        Element.Survives elements old.name new.name ∧
          (old.descriptor ≠ new.descriptor ∨ old.nullable = true ∧ new.nullable = false) := by
  rw [ofColumns, onlyIf_eq_iff, Bool.not_eq_true', ← Bool.not_eq_true,
    renames.keepsRows_iff_elements positioned]
  simp only [← rebuildsRow_eq_true_iff, not_and_or, not_forall, not_not, exists_prop,
    Bool.not_eq_false]

/-- The level of the table is told just where there is a reason to write every row anew. -/
theorem joinAll_eq_table_iff_rewrites
    (renames : Renames before after (elements.filterMap Element.columnChange?) added)
    (reindexed : Reindexed before (elements.filterMap Element.columnChange?) [] indexChanges
      after.indexes) (positioned : before.Positioned) :
    joinAll [ofColumns before after (elements.filterMap Element.columnChange?),
      ofIndexes before after (elements.filterMap Element.columnChange?) indexChanges,
      onlyIf (before.parentJoin.isSome != after.parentJoin.isSome) .table] = .table ↔
        Rewrites elements before after indexChanges := by
  have three (a b c : Level) :
      joinAll [a, b, c] = .table ↔ a = .table ∨ b = .table ∨ c = .table := by
    rw [joinAll_eq_table_iff]
    simp only [List.mem_cons, List.not_mem_nil, or_false, @eq_comm Level .table]
  rw [three, ofColumns_eq_table_iff renames positioned, ofIndexes_eq_table_iff reindexed,
    onlyIf_eq_iff, bne_iff_ne]
  simp only [isPrimary_eq_true_iff]
  constructor
  · rintro ((⟨_, element⟩ | ⟨_, element⟩ | ⟨_, inside, _, inside', survives, differ⟩) |
      ⟨_, listed, _, named, ⟨_, there, primary⟩ | ⟨_, there, primary⟩⟩ | parent)
    · exact .adds element
    · exact .drops element
    · exact .converts inside inside' survives differ
    · exact .sorts listed named (.inl there) primary
    · exact .sorts listed named (.inr there) primary
    · exact .moves parent
  · intro reason
    cases reason with
    | adds element => exact .inl (.inl ⟨_, element⟩)
    | drops element => exact .inl (.inr (.inl ⟨_, element⟩))
    | converts inside inside' survives differ =>
      exact .inl (.inr (.inr ⟨_, inside, _, inside', survives, differ⟩))
    | sorts listed named there primary =>
      refine .inr (.inl ⟨_, listed, _, named, ?_⟩)
      exact there.imp (fun there => ⟨_, there, primary⟩) fun there => ⟨_, there, primary⟩
    | moves parent => exact .inr (.inr parent)

/-- Apart from the indexes, all that is cheaper than the table is free. -/
theorem joinAll_eq_metadata_iff_ne (columns parent : Bool) (indexes : Level) :
    joinAll [onlyIf columns .table, indexes, onlyIf parent .table] = .metadata ↔
      joinAll [onlyIf columns .table, indexes, onlyIf parent .table] ≠ .table ∧
        indexes = .metadata := by
  cases columns <;> cases parent <;> cases indexes <;> decide

theorem eq_index_iff {level : Level} {free : Prop}
    (h : level = .metadata ↔ level ≠ .table ∧ free) :
    level = .index ↔ level ≠ .table ∧ ¬ free := by
  cases level <;> simp_all

end Level

variable {σ : Type} {p : Planner σ} {e : Edits} {plan : Planner.Plan} {k k' : Context}

/-- In a plan whose elements name no column twice, the columns are those kept of the table, by their
names now, and those added. -/
theorem Planner.renames_of_plan (wf : live.WellFormed)
    (found : live.tables.get? current.id = some current)
    (once : Element.NamedOnce current elements)
    (planned : p.plan live current.id current (.ofElements current elements) k = .ok plan k')
    (there : plan.staged.catalog.tables.get? current.id = some d) :
    Level.Renames current d (elements.filterMap Element.columnChange?)
      ((Edits.ofElements current elements).columns.flatMap ColumnEdit.addedNames) := by
  obtain ⟨fits, changes, names⟩ := (p.wp_plan wf found _ k).ok planned
  have accounts := (p.wp_plan_accounts wf found _ k fun _ => Edits.isDrop_of_ofElements).ok planned
  have listed := changes ▸ accounts.named
  have drafted := fits.drafts.drafted there
  exact ⟨once.consistent listed, drafted.listed.trans names, drafted.distinct,
    fun _ => Edits.mem_addedNames_iff, listed⟩

/-- Every plan has a level: that of the table just where there is a reason to write every row anew,
and that of the catalog just where there is neither one nor an index in the list. -/
theorem Planner.exists_level (wf : live.WellFormed)
    (found : live.tables.get? current.id = some current)
    (once : Element.NamedOnce current elements)
    (planned : p.plan live current.id current (.ofElements current elements) k = .ok plan k') :
    ∃ d level, plan.staged.definition = .ok d ∧
      Level.classify live current.id plan.staged plan.columnChanges plan.indexChanges =
        .ok level ∧
      (level = .table ↔ Rewrites elements current d plan.indexChanges) ∧
      (level = .metadata ↔ level ≠ .table ∧ plan.indexChanges = []) := by
  obtain ⟨fits, changes, _⟩ := (p.wp_plan wf found _ k).ok planned
  obtain ⟨_, reindexed, rejoined⟩ :=
    (p.wp_plan_accounts wf found _ k fun _ => Edits.isDrop_of_ofElements).ok planned
  have changes : plan.columnChanges = elements.filterMap Element.columnChange? := changes
  rw [changes] at reindexed rejoined ⊢
  obtain ⟨d, there, reindexed⟩ := reindexed
  have renames := renames_of_plan wf found once planned there
  have grouped :=
    Level.ofGrouping_eq_ok wf.intact found fits.drafts.intact fits.table there rejoined
  have classified := Level.classify_eq_ok found (fits.definition_eq there) renames reindexed grouped
  have free := Level.joinAll_eq_metadata_iff_ne
    (!Level.keepsRows current d (elements.filterMap Element.columnChange?))
    (current.parentJoin.isSome != d.parentJoin.isSome)
    (Level.ofIndexes current d (elements.filterMap Element.columnChange?) plan.indexChanges)
  rw [Level.ofIndexes_eq_metadata_iff reindexed] at free
  exact ⟨d, _, fits.definition_eq there, classified,
    Level.joinAll_eq_table_iff_rewrites renames reindexed (wf.positioned found), free⟩

/-- The level of a plan is exact: that of the table just where there is a reason to write every row
anew, otherwise that of indexes just where the list names one, and that of the catalog if it does
not. -/
theorem Planner.level_iff_rewrites (wf : live.WellFormed)
    (found : live.tables.get? current.id = some current)
    (once : Element.NamedOnce current elements)
    (route : Route.ofElements current elements = .ok (.edit e))
    (planned : p.plan live current.id current e k = .ok plan k') :
    ∃ d level, plan.staged.definition = .ok d ∧
      Level.classify live current.id plan.staged plan.columnChanges plan.indexChanges =
        .ok level ∧
      (level = .table ↔ Rewrites elements current d plan.indexChanges) ∧
      (level = .index ↔
        ¬ Rewrites elements current d plan.indexChanges ∧ plan.indexChanges ≠ []) ∧
      (level = .metadata ↔
        ¬ Rewrites elements current d plan.indexChanges ∧ plan.indexChanges = []) := by
  obtain rfl := Route.edits_eq route
  obtain ⟨d, level, defined, classified, rows, free⟩ := exists_level wf found once planned
  exact ⟨d, level, defined, classified, rows,
    (Level.eq_index_iff free).trans (and_congr_left' rows.not),
    free.trans (and_congr_left' rows.not)⟩

/-- Gives the customer of the orders another name and lets every customer order once. -/
def orderingOnce : List Element :=
  [.renameColumn "customer" "client", .addConstraint (.unique none ["client"])]

/-- For a unique constraint on a renamed column an index is built, and no row is written. -/
theorem Planner.level_iff_rewrites_shop : ∃ e plan k d,
    Route.ofElements orders orderingOnce = .ok (.edit e) ∧
    swapping.plan shop 2 orders e {} = .ok plan k ∧
    Level.classify shop 2 plan.staged plan.columnChanges plan.indexChanges = .ok .index ∧
    plan.staged.definition = .ok d ∧ plan.indexChanges ≠ [] ∧
    ¬ Rewrites orderingOnce orders d plan.indexChanges := by
  have once : Element.NamedOnce orders orderingOnce := by
    unfold Element.NamedOnce
    decide
  have route : Route.ofElements orders orderingOnce = .ok (.edit {
      columnChanges := [.modify "customer" "client"]
      keys := [.unique none ["client"]] }) := rfl
  obtain ⟨plan, k, planned, classified⟩ := exists_ok_of_wp (show
    WP (swapping.plan shop 2 orders {
        columnChanges := [.modify "customer" "client"]
        keys := [.unique none ["client"]] })
      (fun plan _ =>
        Level.classify shop 2 plan.staged plan.columnChanges plan.indexChanges = .ok .index)
      (fun _ _ => False) {} by decide +kernel)
  obtain ⟨d, level, defined, classified', _, built, _⟩ :=
    level_iff_rewrites shop_wellFormed (by decide +kernel) once route planned
  cases classified.symm.trans classified'
  obtain ⟨cheap, listed⟩ := built.1 rfl
  exact ⟨_, plan, k, d, route, planned, classified, defined, listed, cheap⟩

end GroupedTables
