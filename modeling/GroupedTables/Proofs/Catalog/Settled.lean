import GroupedTables.Proofs.Catalog.Histories
import GroupedTables.Proofs.Catalog.Sequences

/-!
# Catalogs between statements

Between statements a catalog is in order, every tree is in a group of its own, and no sequence is
left behind. Giving a table another name keeps it so, and so does dropping one and grouping the
others afresh. Neither makes two columns draw from one sequence.
-/

namespace GroupedTables.Catalog

open scoped Unbounded

variable {c c' : Catalog} {k x : TableId} {t : Table} {name : TableName} {n : Nat}

/-- A catalog between statements: it passes its validation, no two tables have one name, every
tree is in a group of its own and there is no other group, and every sequence is drawn from. -/
structure Settled (c : Catalog) : Prop where
  wellFormed : c.WellFormed
  grouped : c.Grouped
  spent : c.Spent

/-- Every table is one of another catalog but for its name and its place, and so is every join. -/
structure Within (c' c : Catalog) : Prop where
  tables : ∀ ⦃k t⦄, c'.tables.get? k = some t →
    ∃ u, c.tables.get? k = some u ∧ u.columns = t.columns ∧ u.indexes = t.indexes
  joins : ∀ ⦃i j⦄, c'.joins.get? i = some j → c.joins.get? i = some j

theorem within_renamed : (c.renamed x name).Within c where
  tables k t there := by
    rw [Catalog.renamed, get?_editing] at there
    split at there
    · obtain ⟨u, found, rfl⟩ := Option.map_eq_some_iff.1 there
      exact ⟨u, found, rfl, rfl⟩
    · exact ⟨t, there, rfl, rfl⟩
  joins _ _ there := there

theorem Intact.within_dropped (h : c.Intact) : (c.removed x t).regrouped.Within c where
  tables k u there := by
    have body : (c.removed x t).regrouped.bodies.get? k = some u.body :=
      get?_bodies_eq_some.2 ⟨u, there, rfl⟩
    rw [bodies_regrouped, bodies_removed] at body
    obtain ⟨v, found, same⟩ := get?_bodies_eq_some.1 (OrderedMap.get?_of_erase body)
    exact ⟨v, found, (congrArg Table.columns same :), (congrArg Table.indexes same :)⟩
  joins i j there := by
    rw [joins_regrouped, joins_removed h.toLinked, OrderedMap.get?_filter,
      Option.filter_eq_some_iff] at there
    exact there.1

/-- A part of a catalog in order is in order, if it fits together. -/
theorem WellFormed.part (h : c.WellFormed) (within : c'.Within c) (intact : c'.Intact)
    (names : c'.DistinctNames) (supplied : c'.Supplied) : c'.WellFormed := by
  have types ⦃t u : Table⦄ (same : u.columns = t.columns) : u.typeOf? = t.typeOf? := by
    unfold Table.typeOf? Table.column?
    rw [same]
  refine intact.wellFormed names (fun k t there => ?_) supplied (fun k t there index inside => ?_)
    (fun i j p t there above below pair inside => ?_) (h.acyclic.mono within.joins)
  · obtain ⟨u, found, columns, _⟩ := within.tables there
    exact Table.positioned_of_columns (h.positioned found) columns.symm
  · obtain ⟨u, found, columns, indexes⟩ := within.tables there
    have passed := checkIndex_eq_ok.1 (h.indexed found index (indexes ▸ inside))
    rw [types columns] at passed
    exact checkIndex_eq_ok.2 passed
  · obtain ⟨p', above', columns, _⟩ := within.tables above
    obtain ⟨t', below', columns', _⟩ := within.tables below
    have passed := checkPair_eq_ok.1 (h.paired (within.joins there) above' below' pair inside)
    rw [types columns, types columns'] at passed
    exact checkPair_eq_ok.2 passed

/-- Fewer tables draw from no more. -/
theorem SequencesApart.part (h : c.SequencesApart) (within : c'.Within c) (numbered : c.Numbered)
    (numbered' : c'.Numbered) : c'.SequencesApart := by
  have draws ⦃k : TableId⦄ ⦃t : Table⦄ (there : c'.tables.get? k = some t) :
      ∃ u, c.tables.get? k = some u ∧ t.sequenceIds = u.sequenceIds := by
    obtain ⟨u, found, columns, _⟩ := within.tables there
    exact ⟨u, found, by rw [Table.sequenceIds, ← columns, Table.sequenceIds]⟩
  refine numbered'.sequencesApart (fun k t there => ?_)
    fun k k' t u s there there' drawn drawn' => ?_
  · obtain ⟨v, found, same⟩ := draws there
    exact same ▸ h.nodup found
  · obtain ⟨v, found, same⟩ := draws there
    obtain ⟨v', found', same'⟩ := draws there'
    exact h.eq_of_mem numbered found found' (same ▸ drawn) (same' ▸ drawn')

/-- Whatever another table draws from stays when a table is removed. -/
theorem Supplied.removed (h : c.Supplied) : (c.removed x t).Supplied := by
  intro k u there s drawn
  rw [get?_sequences_removed_of_uses (usesSequence_iff.2 ⟨k, u, there, drawn⟩)]
  have body : (c.removed x t).bodies.get? k = some u.body := get?_bodies_eq_some.2 ⟨u, there, rfl⟩
  rw [bodies_removed] at body
  obtain ⟨v, found, same⟩ := get?_bodies_eq_some.1 (OrderedMap.get?_of_erase body)
  rw [← Table.body_sequenceIds, ← same] at drawn
  exact h found s drawn

/-- Every tree stays in its group where trees and groups are left alone. -/
theorem Grouped.congr (h : c.Grouped)
    (tables : ∀ ⦃k t⦄, c'.tables.get? k = some t → ∃ u, c.tables.get? k = some u)
    (hook : ∀ k, c'.hook k = c.hook k) (groupOf : ∀ k, c'.groupOf k = c.groupOf k)
    (groups : c'.groups = c.groups) (joins : c'.joins = c.joins) : c'.Grouped := by
  refine ⟨fun root t there top => ?_, fun g group found => ?_⟩
  · obtain ⟨u, there⟩ := tables there
    obtain ⟨g, group, found, rooted, members⟩ := h.owned there ((hook root).symm.trans top)
    refine ⟨g, group, groups ▸ found, rooted, fun k below => ?_⟩
    rw [below_congr joins] at below
    rw [groupOf, members k below]
  · rw [hook, groupOf]
    exact h.live (groups ▸ found)

/-- A catalog in order that is grouped already and has no sequence of which no column draws. -/
theorem WellFormed.settled (h : c.WellFormed) (grouped : c.regrouped = c)
    (spent : ∀ q ∈ c.sequences.values, c.usesSequence q.id = true) : c.Settled where
  wellFormed := h
  grouped := (regrouped_eq_self_iff h.numbered h.intact.toLinked).1 grouped
  spent _ q there := (h.numbered.sequences there).1 ▸ spent q (OrderedMap.mem_values there)

namespace Settled

variable (h : c.Settled)

include h

/-- Every table is in a group, and that has the root of its tree. -/
theorem exists_group (there : c.tables.get? k = some t) :
    ∃ root g group, c.rootOf k = .ok root ∧ t.group = some g ∧ c.groups.get? g = some group ∧
      group.root = root := by
  have linked := h.wellFormed.intact.toLinked
  obtain ⟨root, ended⟩ := linked.exists_rootOf h.wellFormed.acyclic ⟨t, there⟩
  obtain ⟨below, top⟩ := (linked.rootOf_eq_ok_iff ⟨t, there⟩).1 ended
  obtain ⟨u, higher⟩ := linked.exists_of_above ⟨t, there⟩ below
  obtain ⟨g, group, found, rooted, members⟩ := h.grouped.owned higher top
  exact ⟨root, g, group, ended, (groupOf_of_get? there).symm.trans (members k below), found, rooted⟩

/-- The counter may go up. -/
theorem withCounter (le : c.nextId ≤ n) : ({ c with nextId := n } : Catalog).Settled where
  wellFormed := by
    have intact := h.wellFormed.intact
    have intact' : ({ c with nextId := n } : Catalog).Intact :=
      ⟨⟨intact.tables.mono le, intact.joins.mono le, intact.groups.mono le,
        intact.sequences.mono le⟩, ⟨intact.hook_iff, intact.parent⟩, intact.shared⟩
    exact h.wellFormed.part ⟨fun k t there => ⟨t, there, rfl, rfl⟩, fun _ _ => id⟩ intact'
      h.wellFormed.distinctNames h.wellFormed.supplied
  grouped := ⟨h.grouped.owned, h.grouped.live⟩
  spent := h.spent

/-- A table may be given a name that is free. -/
theorem renamed (free : c.tableNamed? name = none) : (c.renamed x name).Settled where
  wellFormed := by
    refine h.wellFormed.part within_renamed h.wellFormed.intact.renamed
      (h.wellFormed.distinctNames.renamed free) fun k t there s drawn => ?_
    obtain ⟨u, found, columns, _⟩ := within_renamed.tables there
    rw [Table.sequenceIds, ← columns] at drawn
    exact h.wellFormed.supplied found s drawn
  grouped := h.grouped.congr
    (fun k t there => (exists_map tables_editing).1 ⟨t, there⟩)
    (fun _ => hook_renamed) (fun _ => groupOf_map tables_editing fun _ _ => by split <;> rfl)
    rfl rfl
  spent := h.spent.renamed

/-- A table may be dropped, and the others are grouped afresh. -/
theorem dropped (there : c.tables.get? x = some t) : (c.removed x t).regrouped.Settled where
  wellFormed := by
    have intact : (c.removed x t).Intact := h.wellFormed.intact.removed
    refine h.wellFormed.part h.wellFormed.intact.within_dropped intact.regrouped
      (h.wellFormed.distinctNames.of_bodies fun k b there => ?_)
      (h.wellFormed.supplied.removed.congr bodies_regrouped sequences_regrouped)
    rw [bodies_regrouped, bodies_removed] at there
    exact OrderedMap.get?_of_erase there
  grouped := h.wellFormed.intact.removed.toLinked.grouped_regrouped
    h.wellFormed.intact.removed.toNumbered
  spent := (h.spent.removed there).move moved_regrouped

end Settled

end GroupedTables.Catalog
