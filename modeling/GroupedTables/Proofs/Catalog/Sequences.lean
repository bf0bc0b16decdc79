import GroupedTables.Proofs.Catalog.Groups
import GroupedTables.Proofs.Catalog.Validation

/-!
# Sequences and the columns that draw from them

A sequence is there for a column. A table that is removed takes along what only it drew from,
and whatever moves tables about leaves alone what they draw from, so neither leaves a sequence
behind that no column draws from, and neither makes two columns draw from one.
-/

namespace GroupedTables.Catalog

open scoped Unbounded

variable {c c' c'' : Catalog} {k x parent child : TableId} {s : SequenceId}
  {t definition : Table} {name : TableName} {columns : List JoinColumn}

/-- Tables were moved about, and what they are made of and draw from is what it was. -/
structure Moved (c c' : Catalog) : Prop where
  bodies : c'.bodies = c.bodies
  sequences : c'.sequences = c.sequences

theorem Moved.refl : c.Moved c := ⟨rfl, rfl⟩

theorem Moved.trans (h : c.Moved c') (h' : c'.Moved c'') : c.Moved c'' :=
  ⟨h'.bodies.trans h.bodies, h'.sequences.trans h.sequences⟩

theorem Moved.joined (h : c.Moved c') : c.Moved (c'.joined parent child columns) :=
  h.trans ⟨bodies_joined, sequences_joined⟩

theorem moved_regrouped : c.Moved c.regrouped := ⟨bodies_regrouped, sequences_regrouped⟩

/-- A table draws from a sequence wherever it has the same body. -/
theorem usesSequence_of_bodies (same : c'.bodies.get? k = c.bodies.get? k)
    (there : c.tables.get? k = some t) (drawn : s ∈ t.sequenceIds) : c'.usesSequence s = true := by
  obtain ⟨u, found, body⟩ := get?_bodies_eq_some.1
    (same.trans (get?_bodies_eq_some.2 ⟨t, there, rfl⟩))
  refine usesSequence_iff.2 ⟨k, u, found, ?_⟩
  rw [← Table.body_sequenceIds, body]
  exact drawn

theorem Moved.usesSequence_eq (h : c.Moved c') : c'.usesSequence s = c.usesSequence s := by
  have carried ⦃c c' : Catalog⦄ (same : c'.bodies = c.bodies) (used : c.usesSequence s = true) :
      c'.usesSequence s = true :=
    have ⟨_, _, there, drawn⟩ := usesSequence_iff.1 used
    usesSequence_of_bodies (by rw [same]) there drawn
  exact Bool.eq_iff_iff.2 ⟨carried h.bodies.symm, carried h.bodies⟩

/-- Every sequence is drawn from by some column. -/
def Spent (c : Catalog) : Prop := ∀ ⦃s q⦄, c.sequences.get? s = some q → c.usesSequence s = true

namespace Spent

theorem move (h : c.Spent) (moved : c.Moved c') : c'.Spent := by
  intro s q there
  rw [moved.usesSequence_eq]
  exact h (moved.sequences ▸ there)

theorem created (h : c.Spent) (numbered : c.Numbered) : (c.created definition).Spent := by
  intro s q there
  obtain ⟨k, t, found, drawn⟩ := usesSequence_iff.1 (h there)
  exact usesSequence_iff.2 ⟨k, t, get?_created_of_get? numbered found, drawn⟩

/-- What only the table drew from is removed with it. -/
theorem removed (h : c.Spent) (found : c.tables.get? x = some t) : (c.removed x t).Spent := by
  intro s q there
  rw [get?_sequences_removed] at there
  split at there
  · cases there
  case isFalse kept =>
    obtain ⟨k, u, found', drawn⟩ := usesSequence_iff.1 (h there)
    by_cases same : k = x
    · rw [same, found] at found'
      cases found'
      cases used : (c.removed x t).usesSequence s with
      | true => rfl
      | false => exact absurd ⟨drawn, used⟩ kept
    · refine usesSequence_of_bodies ?_ found' drawn
      rw [bodies_removed, OrderedMap.get?_erase, if_neg same]

theorem renamed (h : c.Spent) : (c.renamed x name).Spent := by
  intro s q there
  rw [Catalog.renamed, usesSequence_map tables_editing fun k t => by split <;> rfl]
  exact h there

end Spent

/-- It is enough that no column draws from what another one of its table or of another table
draws from. -/
theorem Numbered.sequencesApart (numbered : c.Numbered)
    (own : ∀ ⦃k t⦄, c.tables.get? k = some t → t.sequenceIds.Nodup)
    (others : ∀ ⦃k k' t u s⦄, c.tables.get? k = some t → c.tables.get? k' = some u →
      s ∈ t.sequenceIds → s ∈ u.sequenceIds → k = k') : c.SequencesApart := by
  refine List.nodup_flatMap.2 ⟨fun t listed => own (numbered.get?_of_mem listed), ?_⟩
  refine (numbered.tables.nodup_numbers.of_map).imp_of_mem fun {t u} listed listed' other => ?_
  intro s drawn drawn'
  have there := numbered.get?_of_mem listed
  have there' := numbered.get?_of_mem listed'
  rw [others there there' drawn drawn', there'] at there
  exact other (Option.some.inj there).symm

end GroupedTables.Catalog
