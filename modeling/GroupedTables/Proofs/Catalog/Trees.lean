import GroupedTables.Proofs.Catalog.Selection
import GroupedTables.Proofs.Catalog.Settled

/-!
# Trees taken out of a catalog

The tables of one tree are the part of a catalog that an alteration is drafted in. Joined tables
have one root, so no table of the part lost its parent: each is there as it is in the whole, and so
is each join of a table of the tree.
-/

namespace GroupedTables.Catalog

open Check

variable {whole tree : Catalog} {k x root : TableId} {i : JoinId} {j : Join} {t : Table}

theorem hasRoot_iff : whole.hasRoot root t = true ↔ whole.rootOf t.id = .ok root := by
  unfold hasRoot
  cases whole.rootOf t.id <;> simp

/-- Joined tables have one root. -/
theorem Linked.rootOf_child (h : whole.Linked) (acyclic : whole.Acyclic)
    (there : whole.joins.get? i = some j) : whole.rootOf j.child = whole.rootOf j.parent := by
  obtain ⟨root, rooted⟩ := h.exists_rootOf acyclic (h.parent there)
  obtain ⟨t, below, _⟩ := h.child there
  obtain ⟨above, top⟩ := (h.rootOf_eq_ok_iff (h.parent there)).1 rooted
  rw [rooted, h.rootOf_eq_ok_iff ⟨t, below⟩]
  exact ⟨above.tail (hangs_iff.2 ⟨i, j, there, rfl, rfl⟩), top⟩

theorem Addressed.contains_selected_iff (h : whole.Addressed) :
    (whole.selected (whole.hasRoot root)).contains k = true ↔
      (∃ t, whole.tables.get? k = some t) ∧ whole.rootOf k = .ok root := by
  rw [OrderedMap.contains_iff_exists]
  simp only [selected, OrderedMap.get?_filter, Option.filter_eq_some_iff, hasRoot_iff]
  constructor
  · rintro ⟨t, there, rooted⟩
    exact ⟨⟨t, there⟩, h.tables there ▸ rooted⟩
  · rintro ⟨⟨t, there⟩, rooted⟩
    exact ⟨t, there, (h.tables there).symm ▸ rooted⟩

variable (h : whole.WellFormed)

include h

/-- A join comes along with the tree that its child is in. -/
theorem WellFormed.get?_joins_tree : (whole.select (whole.hasRoot root)).joins.get? i = some j ↔
    whole.joins.get? i = some j ∧ whole.rootOf j.child = .ok root := by
  rw [joins_select h.numbered, get?_selectedJoins, h.numbered.addressed.contains_selected_iff,
    h.numbered.addressed.contains_selected_iff]
  constructor
  · rintro ⟨there, _, _, rooted⟩
    exact ⟨there, rooted⟩
  · rintro ⟨there, rooted⟩
    have linked := h.intact.toLinked
    obtain ⟨t, below, _⟩ := linked.child there
    have above := linked.rootOf_child h.acyclic there
    exact ⟨there, ⟨linked.parent there, above ▸ rooted⟩, ⟨t, below⟩, rooted⟩

/-- The tables of a tree are there as they are in the whole. -/
theorem WellFormed.get?_tables_tree : (whole.select (whole.hasRoot root)).tables.get? k = some t ↔
    whole.tables.get? k = some t ∧ whole.rootOf k = .ok root := by
  have same ⦃u : Table⦄ (there : whole.tables.get? k = some u)
      (rooted : whole.rootOf k = .ok root) :
      u.parentJoin.filter (whole.selectedJoins (whole.hasRoot root)).contains = u.parentJoin := by
    cases named : u.parentJoin with
    | none => rfl
    | some i =>
      obtain ⟨j, joined, rfl⟩ :=
        (h.intact.toLinked.hook_iff k i).1 ((hook_of_get? there).trans named)
      have inside : (whole.select (whole.hasRoot root)).joins.get? i = some j :=
        h.get?_joins_tree.2 ⟨joined, rooted⟩
      rw [joins_select h.numbered] at inside
      exact Option.filter_some_pos (OrderedMap.contains_of_get? inside)
  rw [tables_select h.numbered.addressed, get?_restricted]
  simp only [hasRoot_iff]
  constructor
  · rintro ⟨u, there, rooted, rfl⟩
    rw [h.numbered.id_eq there] at rooted
    rw [same there rooted]
    exact ⟨there, rooted⟩
  · rintro ⟨there, rooted⟩
    refine ⟨t, there, (h.numbered.id_eq there).symm ▸ rooted, ?_⟩
    rw [same there rooted]

/-- A part of a catalog in order is in order. -/
theorem WellFormed.select (p : Table → Bool) : (whole.select p).WellFormed := by
  have within : (whole.select p).Within whole := by
    refine ⟨fun k t there => ?_, fun i j there => ?_⟩
    · obtain ⟨u, found, same⟩ := exists_whole_of_select h.numbered there
      exact ⟨u, found, (congrArg Table.columns same :), (congrArg Table.indexes same :)⟩
    · rw [joins_select h.numbered] at there
      exact (get?_selectedJoins.1 there).1
  refine h.part within h.intact.select (h.distinctNames.of_bodies fun k b there => ?_)
    (h.supplied.select h.numbered)
  obtain ⟨t, found, rfl⟩ := get?_bodies_eq_some.1 there
  exact get?_bodies_eq_some.2 (exists_whole_of_select h.numbered found)

end GroupedTables.Catalog
