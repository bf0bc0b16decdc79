import GroupedTables.Proofs.Alter.Changes
import GroupedTables.Proofs.Alter.Framing

/-!
# What becomes of the indexes

The indexes of a table are put back one after the other, less the columns that are gone, and those
of new constraints behind them. Whatever is not put back as it was is in the list of changes: an
index that is there in the end is listed by its name or the same as before, and one that is gone is
listed as dropped.
-/

namespace GroupedTables

open GroupedTables.Action Catalog

variable {current t : Table} {columnChanges changes : List Change} {rest indexes : List Index}
  {index : Index} {change : Change} {c : Catalog}

theorem Level.sameColumns_of_length {columns : List IndexColumn} {f : String → Option String}
    (same : (columns.filterMap fun c => (f c.column).map fun column => { c with column }).length =
      columns.length) :
    (columns.zip (columns.filterMap fun c => (f c.column).map fun column => { c with column })).all
      (fun (old, new) => old.ascending == new.ascending && f old.column == some new.column) =
        true := by
  induction columns with
  | nil => rfl
  | cons column rest ih =>
    have short := List.length_filterMap_le
      (fun c : IndexColumn => (f c.column).map fun column => { c with column }) rest
    cases kept : f column.column with
    | none =>
      rw [List.filterMap_cons_none (by rw [kept]; rfl), List.length_cons] at same
      exact absurd short (Nat.not_le.2 (same ▸ Nat.lt_succ_self _))
    | some name =>
      rw [List.filterMap_cons_some (by rw [kept]; rfl)] at same ⊢
      rw [List.zip_cons_cons, List.all_cons, ih (Nat.succ.inj same)]
      simp [kept]

/-- An index that kept all its columns is the same but for their names. -/
theorem Level.sameIndex_of_length
    (same : (Draft.keptColumns columnChanges index).length = index.columns.length) :
    Level.sameIndex index { index with columns := Draft.keptColumns columnChanges index }
      columnChanges = true := by
  rw [Level.sameIndex, same]
  simp only [BEq.rfl, Bool.true_and]
  exact Level.sameColumns_of_length same

/-- A change that is true of the indexes a table had and those it has now. -/
def Change.Founded (current : Table) (indexes : List Index) : Change → Prop
  | add new => ∃ i ∈ indexes, i.name = new
  | drop old => (current.index? old).isSome
  | modify old new => new = old ∧ (current.index? old).isSome ∧ ∃ i ∈ indexes, i.name = new

/-- A table with some of its indexes put back, and those still to come. -/
structure Reindexed (current : Table) (columnChanges : List Change) (rest : List Index)
    (changes : List Change) (indexes : List Index) : Prop where
  founded : ∀ change ∈ changes, change.Founded current indexes
  traced : ∀ i ∈ indexes, (∃ change ∈ changes, change.newName? = some i.name) ∨
    ∃ old, current.index? i.name = some old ∧ Level.sameIndex old i columnChanges = true
  accounted : ∃ done, current.indexes = done ++ rest ∧ ∀ old ∈ done,
    (∃ i ∈ indexes, i.name = old.name) ∨
      Change.ofOldName? changes old.name = some (.drop old.name)

theorem Change.Founded.mono {change : Change} (h : change.Founded current indexes)
    (more : List Index) : change.Founded current (indexes ++ more) := by
  have still {name : String} (there : ∃ i ∈ indexes, i.name = name) :
      ∃ i ∈ indexes ++ more, i.name = name := by
    obtain ⟨i, inside, named⟩ := there
    exact ⟨i, List.mem_append_left _ inside, named⟩
  cases change with
  | add => exact still h
  | drop => exact h
  | modify => exact ⟨h.1, h.2.1, still h.2.2⟩

namespace Reindexed

/-- An index that is dropped is not put back. -/
theorem skip (h : Reindexed current columnChanges (index :: rest) changes indexes)
    (dropped : Change.ofOldName? changes index.name = some (.drop index.name)) :
    Reindexed current columnChanges rest changes indexes := by
  obtain ⟨done, cut, all⟩ := h.accounted
  refine ⟨h.founded, h.traced, done ++ [index], by rw [cut, List.append_assoc]; rfl, ?_⟩
  intro old inside
  obtain inside | inside := List.mem_append.1 inside
  · exact all old inside
  · cases List.mem_singleton.1 inside
    exact .inr dropped

/-- An index that lost all its columns is listed as dropped. -/
theorem lose (h : Reindexed current columnChanges (index :: rest) changes indexes) :
    Reindexed current columnChanges rest (changes ++ [.drop index.name]) indexes := by
  obtain ⟨done, cut, all⟩ := h.accounted
  have inside : index ∈ current.indexes := by
    rw [cut]
    exact List.mem_append_right _ (.head _)
  refine ⟨?_, ?_, done ++ [index], by rw [cut, List.append_assoc]; rfl, ?_⟩
  · intro change listed
    obtain listed | listed := List.mem_append.1 listed
    · exact h.founded change listed
    · cases List.mem_singleton.1 listed
      exact Table.index?_isSome_iff.2 (List.mem_map_of_mem inside)
  · intro i there
    refine (h.traced i there).imp_left ?_
    rintro ⟨change, listed, named⟩
    exact ⟨change, List.mem_append_left _ listed, named⟩
  · intro old inside
    rw [Change.ofOldName?_append]
    obtain inside | inside := List.mem_append.1 inside
    · refine (all old inside).imp_right ?_
      intro dropped
      rw [dropped]
      rfl
    · cases List.mem_singleton.1 inside
      cases first : Change.ofOldName? changes index.name with
      | none =>
        right
        simp [Change.ofOldName?, Change.oldName?]
      | some change =>
        have named := Change.oldName?_of_ofOldName? first
        have founded := h.founded change (Change.mem_of_ofOldName? first)
        cases change with
        | add => cases named
        | drop => cases named; exact .inr rfl
        | modify =>
          cases named
          obtain ⟨rfl, _, there⟩ := founded
          exact .inl there

/-- A name that no index has that was put back, and that is not listed as dropped, is not listed
at all. -/
theorem unlisted (h : Reindexed current columnChanges rest changes indexes) {name : String}
    (fresh : ∀ i ∈ indexes, i.name ≠ name)
    (undropped : (Change.ofOldName? changes name).any (·.isDrop) = false) :
    Change.ofOldName? changes name = none := by
  cases first : Change.ofOldName? changes name with
  | none => rfl
  | some change =>
    have named := Change.oldName?_of_ofOldName? first
    have founded := h.founded change (Change.mem_of_ofOldName? first)
    rw [first] at undropped
    cases change with
    | add => cases named
    | drop => cases undropped
    | modify =>
      cases named
      obtain ⟨rfl, _, i, inside, same⟩ := founded
      exact absurd same (fresh i inside)

/-- An index that is put back under a name not listed yet is the first one of its name. -/
theorem index?_eq (h : Reindexed current columnChanges (index :: rest) changes indexes)
    (fresh : ∀ i ∈ indexes, i.name ≠ index.name)
    (unlisted : Change.ofOldName? changes index.name = none) :
    current.index? index.name = some index := by
  obtain ⟨done, cut, all⟩ := h.accounted
  have other : ∀ old ∈ done, ¬ (old.name == index.name) = true := by
    intro old inside same
    have same := eq_of_beq same
    obtain ⟨i, there, named⟩ | dropped := all old inside
    · exact fresh i there (named.trans same)
    · rw [same, unlisted] at dropped
      cases dropped
  rw [Table.index?, cut, List.find?_append, List.find?_eq_none.2 other, Option.none_or]
  exact List.find?_cons_of_pos (beq_self_eq_true index.name)

/-- An index is put back under its name: as it was, or listed as modified. -/
theorem put (h : Reindexed current columnChanges (index :: rest) changes indexes)
    (fresh : ∀ i ∈ indexes, i.name ≠ index.name)
    (unlisted : Change.ofOldName? changes index.name = none) {i : Index} {more : List Change}
    (named : i.name = index.name)
    (modified : ∀ change ∈ more, change = .modify index.name index.name)
    (traced : Level.sameIndex index i columnChanges = true ∨
      .modify index.name index.name ∈ more) :
    Reindexed current columnChanges rest (changes ++ more) (indexes ++ [i]) := by
  have first := h.index?_eq fresh unlisted
  obtain ⟨done, cut, all⟩ := h.accounted
  refine ⟨?_, ?_, done ++ [index], by rw [cut, List.append_assoc]; rfl, ?_⟩
  · intro change listed
    obtain listed | listed := List.mem_append.1 listed
    · exact (h.founded change listed).mono _
    · rw [modified change listed]
      exact ⟨rfl, by rw [first]; rfl, i, List.mem_append_right _ (.head _), named⟩
  · intro i' inside
    obtain inside | inside := List.mem_append.1 inside
    · refine (h.traced i' inside).imp_left ?_
      rintro ⟨change, listed, new⟩
      exact ⟨change, List.mem_append_left _ listed, new⟩
    · cases List.mem_singleton.1 inside
      rw [named]
      obtain same | listed := traced
      · exact .inr ⟨index, first, same⟩
      · exact .inl ⟨_, List.mem_append_right _ listed, rfl⟩
  · intro old inside
    obtain inside | inside := List.mem_append.1 inside
    · refine (all old inside).imp ?_ ?_
      · rintro ⟨i', there, same⟩
        exact ⟨i', List.mem_append_left _ there, same⟩
      · intro dropped
        rw [Change.ofOldName?_append, dropped]
        rfl
    · cases List.mem_singleton.1 inside
      exact .inl ⟨i, List.mem_append_right _ (.head _), named⟩

/-- An index of a new constraint is listed as added. -/
theorem key (h : Reindexed current columnChanges rest changes indexes) (i : Index) :
    Reindexed current columnChanges rest (changes ++ [.add i.name]) (indexes ++ [i]) := by
  obtain ⟨done, cut, all⟩ := h.accounted
  refine ⟨?_, ?_, done, cut, ?_⟩
  · intro change listed
    obtain listed | listed := List.mem_append.1 listed
    · exact (h.founded change listed).mono _
    · cases List.mem_singleton.1 listed
      exact ⟨i, List.mem_append_right _ (.head _), rfl⟩
  · intro i' inside
    obtain inside | inside := List.mem_append.1 inside
    · refine (h.traced i' inside).imp_left ?_
      rintro ⟨change, listed, new⟩
      exact ⟨change, List.mem_append_left _ listed, new⟩
    · cases List.mem_singleton.1 inside
      exact .inl ⟨.add i.name, List.mem_append_right _ (.head _), rfl⟩
  · intro old inside
    refine (all old inside).imp ?_ ?_
    · rintro ⟨i', there, same⟩
      exact ⟨i', List.mem_append_left _ there, same⟩
    · intro dropped
      rw [Change.ofOldName?_append, dropped]
      rfl

/-- A catalog in which the table has some of its indexes back. -/
def In (current : Table) (columnChanges : List Change) (rest : List Index)
    (changes : List Change) (c : Catalog) : Prop :=
  ∃ t, c.tables.get? current.id = some t ∧
    Reindexed current columnChanges rest changes t.indexes

theorem in_editing (there : c.tables.get? current.id = some t) {i : Index}
    (h : Reindexed current columnChanges rest changes (t.indexes ++ [i])) :
    In current columnChanges rest changes
      (c.editing current.id fun t => { t with indexes := t.indexes ++ [i] }) :=
  ⟨_, get?_editing_self there, h⟩

theorem wp_keepIndex (h : In current columnChanges (index :: rest) changes c) :
    WP (Draft.keepIndex current.id columnChanges changes index)
      (In current columnChanges rest) (fun _ _ => True) c := by
  obtain ⟨t, there, h⟩ := h
  unfold Draft.keepIndex
  simp only [wp_ite, wp_bind]
  refine ⟨fun dropped => ⟨t, there, h.skip ?_⟩, fun undropped => ⟨fun _ => ⟨t, there, h.lose⟩,
    fun _ => ?_⟩⟩
  · obtain ⟨change, listed, drops⟩ := (Option.any_eq_true _ _).1 dropped
    rw [listed, Change.eq_drop_of_isDrop listed drops]
  apply wp_addIndex_of there (fun _ => trivial) fun _ _ => trivial
  intro free _
  have fresh : ∀ i ∈ t.indexes, i.name ≠ index.name := by
    simpa using Table.index?_eq_none_iff.1 free
  have unlisted := h.unlisted fresh (Bool.eq_false_iff.2 undropped)
  rw [wp_ite]
  constructor
  · intro _
    exact in_editing there (h.put fresh unlisted rfl (by simp) (.inr (.head _)))
  · intro same
    have same : (Draft.keptColumns columnChanges index).length = index.columns.length := by
      simpa [unlisted] using same
    have kept : Reindexed current columnChanges rest (changes ++ [])
        (t.indexes ++ [{ index with columns := Draft.keptColumns columnChanges index }]) :=
      h.put fresh unlisted rfl (by simp) (.inl (Level.sameIndex_of_length same))
    exact in_editing there (List.append_nil changes ▸ kept)

theorem wp_addKey (h : In current columnChanges rest changes c) (names : IndexNames)
    (key : KeyEdit) :
    WP (Draft.addKey current.id names changes key)
      (fun added => In current columnChanges rest added.2) (fun _ _ => True) c := by
  obtain ⟨t, there, h⟩ := h
  unfold Draft.addKey
  split
  rw [wp_bind]
  apply wp_addIndex_of there (fun _ => trivial) fun _ _ => trivial
  intro _ _
  exact in_editing there (h.key _)

end Reindexed

end GroupedTables
