import GroupedTables.Alter.Draft
import GroupedTables.Proofs.Catalog.Columns
import GroupedTables.Proofs.Catalog.Selection
import GroupedTables.Proofs.Catalog.Tables
import GroupedTables.Proofs.Catalog.Validation

/-!
# What every draft keeps

A draft starts from the tree of a table and changes that table and the joins that touch it.
Every other table it holds has the body it has in the live catalog. A column of the table
draws from a sequence the table drew from before, or from a new one whose id is above all
live ids; as long as no sequence is drawn from twice, none that is still drawn from is ever
removed. An edit either changes the table and the sequences, or it moves tables about, and
there is one lemma for each of the two.
-/

namespace GroupedTables

open GroupedTables.Action Catalog

/-- The table as far as it has been put together. -/
structure Drafted (live : Catalog) (current : Table) (names : List String) (t : Table) :
    Prop where
  name : t.name = current.name
  positioned : t.Positioned
  listed : t.columnNames = names
  distinct : t.columnNames.Nodup
  drawn : ∀ s ∈ t.sequenceIds, s ∈ current.sequenceIds ∨ live.nextId < s

/-- A catalog in which an alteration of a table is drafted. -/
structure Drafts (live : Catalog) (current : Table) (names : List String) (c : Catalog) :
    Prop where
  intact : c.Intact
  counter : live.nextId ≤ c.nextId
  itself : ∃ t, c.tables.get? current.id = some t ∧ Drafted live current names t
  others : ∀ ⦃k t⦄, c.tables.get? k = some t → k ≠ current.id →
    ∃ l, live.tables.get? k = some l ∧ l.body = t.body
  children : ∀ ⦃i j⦄, c.joins.get? i = some j → j.parent = current.id →
    ∃ l, live.joins.get? i = some l ∧ l.parent = current.id ∧ l.child = j.child
  sourced : live.Sourced c
  supply : live.SequencesApart →
    c.Supplied ∧ ∀ t, c.tables.get? current.id = some t → t.sequenceIds.Nodup

/-- A fault that is foreseen as long as no live sequence is drawn from twice. -/
def Excused (live : Catalog) (f : Fault) : Prop := live.SequencesApart → f.Foreseen

theorem Excused.of_foreseen {live : Catalog} {f : Fault} (h : f.Foreseen) : Excused live f :=
  fun _ => h

theorem Drafted.congr {live : Catalog} {current t u : Table} {names : List String}
    (h : Drafted live current names t) (same : u.body = t.body) :
    Drafted live current names u := by
  have name := congrArg Table.name same
  have columns := congrArg Table.columns same
  have names := congrArg Table.columnNames same
  have drawn := congrArg Table.sequenceIds same
  simp only [Table.body_name, Table.body_columns, Table.body_columnNames,
    Table.body_sequenceIds] at name columns names drawn
  exact ⟨name.trans h.name, Table.positioned_of_columns h.positioned columns, names.trans h.listed,
    names ▸ h.distinct, drawn ▸ h.drawn⟩

def Catalog.columnNamesOf (c : Catalog) (k : TableId) : List String :=
  ((c.tables.get? k).map Table.columnNames).getD []

namespace Drafts

variable {live c c' : Catalog} {current t : Table} {f : Table → Table} {names names' : List String}

theorem columnNamesOf (h : Drafts live current names c) : c.columnNamesOf current.id = names := by
  obtain ⟨t, there, drafted⟩ := h.itself
  rw [Catalog.columnNamesOf, there, Option.map_some, Option.getD_some, drafted.listed]

/-- Moving tables about keeps a draft, if it only takes children away from the table. -/
theorem move (h : Drafts live current names c) (intact : c'.Intact) (bodies : c'.bodies = c.bodies)
    (sequences : c'.sequences = c.sequences) (le : c.nextId ≤ c'.nextId)
    (children : ∀ ⦃i j⦄, c'.joins.get? i = some j → j.parent = current.id →
      ∃ l, c.joins.get? i = some l ∧ l.parent = current.id ∧ l.child = j.child) :
    Drafts live current names c' where
  intact := intact
  counter := Nat.le_trans h.counter le
  itself := by
    obtain ⟨t, there, drafted⟩ := h.itself
    obtain ⟨u, there', same⟩ := exists_of_bodies bodies there
    exact ⟨u, there', drafted.congr same⟩
  others k t there other := by
    obtain ⟨u, there', same⟩ := exists_of_bodies bodies.symm there
    obtain ⟨l, found, same'⟩ := h.others there' other
    exact ⟨l, found, same'.trans same⟩
  children i j there below := by
    obtain ⟨l, there', below', same⟩ := children there below
    obtain ⟨l', found, above, same'⟩ := h.children there' below'
    exact ⟨l', found, above, same'.trans same⟩
  sourced s q there := by
    rw [sequences] at there
    exact h.sourced there
  supply apart := by
    refine ⟨(h.supply apart).1.congr bodies sequences, fun t there => ?_⟩
    obtain ⟨u, there', same⟩ := exists_of_bodies bodies.symm there
    rw [← Table.body_sequenceIds, ← same]
    exact (h.supply apart).2 u there'

/-- Changing the table and the sequences keeps a draft, if the sequences of other tables
stay and any other one is new. -/
theorem revise (h : Drafts live current names c) (wf : live.WellFormed)
    (found : live.tables.get? current.id = some current)
    (there : c.tables.get? current.id = some t)
    (place : ∀ t, (f t).id = t.id ∧ (f t).parentJoin = t.parentJoin ∧ (f t).group = t.group)
    (drafted : Drafted live current names' (f t)) {m : OrderedMap Sequence} {n : Nat}
    (le : c.nextId ≤ n)
    (keyed : m.Keyed Sequence.id n)
    (new : ∀ ⦃s q⦄, m.get? s = some q → s = c.nextId + 1 ∨ c.sequences.get? s = some q)
    (supply : live.SequencesApart → (f t).sequenceIds.Nodup ∧
      (∀ s ∈ (f t).sequenceIds, ∃ q, m.get? s = some q) ∧
      ∀ s q, s ∉ t.sequenceIds → c.sequences.get? s = some q → ∃ q', m.get? s = some q') :
    Drafts live current names' { c.editing current.id f with sequences := m, nextId := n } := by
  have edited : (c.editing current.id f).Intact := h.intact.editing (fun t => (place t).1)
    (fun t => (place t).2.1) fun t => (place t).2.2
  have itself : (c.editing current.id f).tables.get? current.id = some (f t) :=
    get?_editing_self there
  have elsewhere ⦃k : TableId⦄ (other : k ≠ current.id) :
      (c.editing current.id f).tables.get? k = c.tables.get? k := by rw [get?_editing, if_neg other]
  refine
    { intact := ⟨⟨edited.tables.mono le, edited.joins.mono le, edited.groups.mono le, keyed⟩,
        ⟨edited.hook_iff, edited.parent⟩, edited.shared⟩
      counter := Nat.le_trans h.counter le
      itself := ⟨f t, itself, drafted⟩
      others := fun k u there' other => h.others ((elsewhere other).symm.trans there') other
      children := h.children
      sourced := fun s q supplied old => ?_
      supply := fun apart => ?_ }
  · obtain rfl | supplied := new supplied
    · exact absurd h.counter (Nat.not_le.2 old)
    · exact h.sourced supplied old
  obtain ⟨nodup, own, kept⟩ := supply apart
  constructor
  · intro k u there' s drawn
    by_cases same : k = current.id
    · rw [same] at there'
      cases itself.symm.trans there'
      exact own s drawn
    · have there' := (elsewhere same).symm.trans there'
      obtain ⟨q, supplied⟩ := (h.supply apart).1 there' s drawn
      refine kept s q (fun drawn' => ?_) supplied
      obtain ⟨l, listed, body⟩ := h.others there' same
      rw [← Table.body_sequenceIds, ← body, Table.body_sequenceIds] at drawn
      -- a sequence of the table is one it had before, or newer than any live one
      obtain ⟨t', there'', old⟩ := h.itself
      cases there''.symm.trans there
      obtain old | new := old.drawn s drawn'
      · exact same (apart.eq_of_mem wf.numbered listed found drawn old)
      · obtain ⟨q', supplied'⟩ := wf.supplied listed s drawn
        exact Nat.not_lt.2 (wf.numbered.sequences supplied').2 new
  · intro u there'
    cases itself.symm.trans there'
    exact nodup

/-- Changing only the table, to something that draws from the same sequences. -/
theorem revise_table (h : Drafts live current names c) (wf : live.WellFormed)
    (found : live.tables.get? current.id = some current)
    (there : c.tables.get? current.id = some t)
    (place : ∀ t, (f t).id = t.id ∧ (f t).parentJoin = t.parentJoin ∧ (f t).group = t.group)
    (name : (f t).name = t.name) (positioned : (f t).Positioned)
    (listed : (f t).columnNames = names') (distinct : (f t).columnNames.Nodup)
    (drawn : (f t).sequenceIds = t.sequenceIds) :
    Drafts live current names' (c.editing current.id f) := by
  obtain ⟨t', there', drafted⟩ := h.itself
  cases there'.symm.trans there
  refine h.revise wf found there place ⟨name.trans drafted.name, positioned, listed, distinct, ?_⟩
    (Nat.le_refl _) h.intact.sequences (fun _ _ => .inr) fun apart =>
      ⟨?_, fun s inside => ?_, fun s q _ kept => ⟨q, kept⟩⟩
  · rw [drawn]; exact drafted.drawn
  · rw [drawn]; exact (h.supply apart).2 t there
  · exact (h.supply apart).1 there s (drawn ▸ inside)

end Drafts

end GroupedTables
