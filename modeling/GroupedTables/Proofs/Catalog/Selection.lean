import GroupedTables.Catalog.Selection
import GroupedTables.Proofs.Catalog.Detaching

/-!
# Parts of intact catalogs

A part of an intact catalog is intact, whatever test its tables were taken by: a join comes
along only with both of its ends, and a table forgets a join that does not. What the tables
of the part draw from comes along too. The same holds when a single table is taken over.
-/

namespace GroupedTables.Catalog

open GroupedTables.Action

variable {c whole other : Catalog} {p : Table → Bool} {k id : TableId} {i : JoinId} {j : Join}
  {s : SequenceId} {t u : Table}

@[simp] theorem tables_withDependencies : (c.withDependencies whole t).tables = c.tables := rfl

@[simp] theorem joins_withDependencies : (c.withDependencies whole t).joins = c.joins := rfl

@[simp] theorem nextId_withDependencies : (c.withDependencies whole t).nextId = c.nextId := rfl

theorem get?_sequences_withDependencies {q : Sequence} (there : c.sequences.get? s = some q) :
    (c.withDependencies whole t).sequences.get? s = some q :=
  OrderedMap.get?_foldl_insertNew there

/-- The sequences of the table come along if there are any. -/
theorem exists_sequence_withDependencies {q : Sequence} (h : whole.Numbered)
    (drawn : s ∈ t.sequenceIds) (there : whole.sequences.get? s = some q) :
    ∃ q', (c.withDependencies whole t).sequences.get? s = some q' := by
  rw [← (h.sequences there).1]
  exact OrderedMap.exists_foldl_insertNew (List.mem_filterMap.2 ⟨s, drawn, there⟩)

theorem Intact.withDependencies (h : c.Intact) (h' : whole.Numbered)
    (le : whole.nextId ≤ c.nextId) : (c.withDependencies whole t).Intact :=
  { h with
    groups := h.groups.foldl_insertNew fun g inside => by
      obtain ⟨id, _, there⟩ := List.mem_filterMap.1 inside
      rw [(h'.groups there).1]
      exact Nat.le_trans (h'.groups there).2 le
    sequences := h.sequences.foldl_insertNew fun q inside => by
      obtain ⟨id, _, there⟩ := List.mem_filterMap.1 inside
      rw [(h'.sequences there).1]
      exact Nat.le_trans (h'.sequences there).2 le
    hook_iff := h.hook_iff
    parent := h.parent
    shared := h.shared }

theorem Intact.foldl_withDependencies (h : c.Intact) (h' : whole.Numbered)
    (le : whole.nextId ≤ c.nextId) (tables : List Table) :
    (tables.foldl (·.withDependencies whole) c).Intact := by
  induction tables generalizing c with
  | nil => exact h
  | cons t rest ih => exact ih (h.withDependencies h' le) le

theorem get?_sequences_foldl_withDependencies {q : Sequence} (tables : List Table)
    (there : c.sequences.get? s = some q) :
    (tables.foldl (·.withDependencies whole) c).sequences.get? s = some q := by
  induction tables generalizing c with
  | nil => exact there
  | cons t rest ih => exact ih (get?_sequences_withDependencies there)

theorem exists_sequence_foldl_withDependencies {q : Sequence} {tables : List Table}
    (h : whole.Numbered) (inside : t ∈ tables) (drawn : s ∈ t.sequenceIds)
    (there : whole.sequences.get? s = some q) :
    ∃ q', (tables.foldl (·.withDependencies whole) c).sequences.get? s = some q' := by
  induction tables generalizing c with
  | nil => cases inside
  | cons u rest ih =>
    obtain rfl | inside := List.mem_cons.1 inside
    · obtain ⟨q', there'⟩ := exists_sequence_withDependencies (c := c) h drawn there
      rw [List.foldl_cons]
      exact ⟨q', get?_sequences_foldl_withDependencies rest there'⟩
    · exact ih inside

/-- No sequence that the whole could have is another one. -/
def Sourced (whole c : Catalog) : Prop :=
  ∀ ⦃s q⦄, c.sequences.get? s = some q → s ≤ whole.nextId → whole.sequences.get? s = some q

theorem Sourced.withDependencies (h : whole.Sourced c) (numbered : whole.Numbered) :
    whole.Sourced (c.withDependencies whole t) := by
  intro s q there old
  obtain there | ⟨inside, rfl⟩ := OrderedMap.get?_of_foldl_insertNew there
  · exact h there old
  · obtain ⟨id, _, found⟩ := List.mem_filterMap.1 inside
    rwa [(numbered.sequences found).1]

theorem Sourced.foldl_withDependencies (h : whole.Sourced c) (numbered : whole.Numbered)
    (tables : List Table) : whole.Sourced (tables.foldl (·.withDependencies whole) c) := by
  induction tables generalizing c with
  | nil => exact h
  | cons t rest ih => exact ih (h.withDependencies numbered)

def selected (whole : Catalog) (p : Table → Bool) : OrderedMap Table :=
  whole.tables.filter fun _ t => p t

def selectedJoins (whole : Catalog) (p : Table → Bool) : OrderedMap Join :=
  whole.joins.filter fun _ j =>
    (whole.selected p).contains j.parent && (whole.selected p).contains j.child

/-- The part without groups and sequences. -/
def restricted (whole : Catalog) (p : Table → Bool) : Catalog where
  tables := (whole.selected p).map fun _ t =>
    { t with parentJoin := t.parentJoin.filter (whole.selectedJoins p).contains }
  joins := whole.selectedJoins p
  nextId := whole.nextId

theorem select_eq (h : whole.Addressed) :
    whole.select p =
      (whole.restricted p).tables.values.foldl (·.withDependencies whole) (whole.restricted p) := by
  have tables := OrderedMap.ofList_filter h.tables p
  have joins := OrderedMap.ofList_filter h.joins fun j =>
    (whole.selected p).contains j.parent && (whole.selected p).contains j.child
  unfold select
  simp only [tables]
  simp only [selected] at joins
  simp only [joins]
  rfl

@[simp] theorem tables_select (h : whole.Addressed) :
    (whole.select p).tables = (whole.restricted p).tables := by
  rw [select_eq h]
  exact foldl_keeps Catalog.tables (fun _ _ => tables_withDependencies) _

@[simp] theorem joins_select (h : whole.Numbered) :
    (whole.select p).joins = whole.selectedJoins p := by
  rw [select_eq h.addressed]
  exact foldl_keeps Catalog.joins (fun _ _ => joins_withDependencies) _

@[simp] theorem nextId_select (h : whole.Numbered) :
    (whole.select p).nextId = whole.nextId := by
  rw [select_eq h.addressed]
  exact foldl_keeps Catalog.nextId (fun _ _ => nextId_withDependencies) _

theorem get?_selectedJoins :
    (whole.selectedJoins p).get? i = some j ↔ whole.joins.get? i = some j ∧
      (whole.selected p).contains j.parent = true ∧ (whole.selected p).contains j.child = true := by
  rw [selectedJoins, OrderedMap.get?_filter, Option.filter_eq_some_iff, Bool.and_eq_true]

/-- The tables of a part are those of the whole that pass, up to their places. -/
theorem get?_restricted : (whole.restricted p).tables.get? k = some t ↔
    ∃ u, whole.tables.get? k = some u ∧ p u = true ∧
      { u with parentJoin := u.parentJoin.filter (whole.selectedJoins p).contains } = t := by
  rw [restricted, OrderedMap.get?_map, selected, OrderedMap.get?_filter]
  simp only [Option.map_eq_some_iff, Option.filter_eq_some_iff, and_assoc]

theorem exists_of_selected (inside : (whole.selected p).contains k = true) :
    ∃ t, (whole.restricted p).tables.get? k = some t := by
  obtain ⟨u, there⟩ := OrderedMap.contains_iff_exists.1 inside
  rw [selected, OrderedMap.get?_filter, Option.filter_eq_some_iff] at there
  exact ⟨_, get?_restricted.2 ⟨u, there.1, there.2, rfl⟩⟩

theorem hook_restricted (h : whole.Linked) :
    (whole.restricted p).hook k = some i ↔
      ∃ j, (whole.selectedJoins p).get? i = some j ∧ j.child = k := by
  constructor
  · intro hung
    obtain ⟨t, there, named⟩ := exists_of_hook hung
    obtain ⟨u, found, _, rfl⟩ := get?_restricted.1 there
    obtain ⟨named, kept⟩ := Option.filter_eq_some_iff.1 named
    obtain ⟨j, joined⟩ := OrderedMap.contains_iff_exists.1 kept
    obtain ⟨j', joined', child⟩ := (h.hook_iff k i).1 ((hook_of_get? found).trans named)
    rw [(get?_selectedJoins.1 joined).1] at joined'
    exact ⟨j, joined, Option.some.inj joined' ▸ child⟩
  · rintro ⟨j, joined, rfl⟩
    obtain ⟨there, _, inside⟩ := get?_selectedJoins.1 joined
    obtain ⟨t, found⟩ := exists_of_selected inside
    obtain ⟨u, below, _, rfl⟩ := get?_restricted.1 found
    have named := (hook_of_get? below).symm.trans (h.hook_child there)
    rw [hook_of_get? found]
    exact Option.filter_eq_some_iff.2 ⟨named, OrderedMap.contains_of_get? joined⟩

theorem groupOf_restricted (inside : (whole.selected p).contains k = true) :
    (whole.restricted p).groupOf k = whole.groupOf k := by
  obtain ⟨t, found⟩ := exists_of_selected inside
  obtain ⟨u, there, _, rfl⟩ := get?_restricted.1 found
  rw [groupOf_of_get? found, groupOf_of_get? there]

theorem Intact.restricted (h : whole.Intact) : (whole.restricted p).Intact where
  tables := (h.tables.filter _).map fun _ _ _ => rfl
  joins := h.joins.filter _
  groups := nofun
  sequences := nofun
  hook_iff _ _ := hook_restricted h.toLinked
  parent _ _ there := exists_of_selected (get?_selectedJoins.1 there).2.1
  shared _ _ there := by
    obtain ⟨joined, above, below⟩ := get?_selectedJoins.1 there
    rw [groupOf_restricted above, groupOf_restricted below]
    exact h.shared joined

theorem Intact.select (h : whole.Intact) : (whole.select p).Intact := by
  rw [select_eq h.toNumbered.addressed]
  exact h.restricted.foldl_withDependencies h.toNumbered (Nat.le_refl _) _

theorem sourced_select (h : whole.Numbered) : whole.Sourced (whole.select p) := by
  have bare : whole.Sourced (whole.restricted p) := by
    intro s q there
    cases there
  rw [select_eq h.addressed]
  exact bare.foldl_withDependencies h _

/-- The tables of a part have the bodies they have in the whole. -/
theorem exists_whole_of_select (h : whole.Numbered)
    (there : (whole.select p).tables.get? k = some t) :
    ∃ u, whole.tables.get? k = some u ∧ u.body = t.body := by
  rw [tables_select h.addressed] at there
  obtain ⟨u, found, _, rfl⟩ := get?_restricted.1 there
  exact ⟨u, found, rfl⟩

theorem exists_select_of_whole (h : whole.Numbered) (there : whole.tables.get? k = some u)
    (passes : p u = true) : ∃ t, (whole.select p).tables.get? k = some t ∧ t.body = u.body := by
  rw [tables_select h.addressed]
  exact ⟨_, get?_restricted.2 ⟨u, there, passes, rfl⟩, rfl⟩

theorem Supplied.select (h : whole.Supplied) (numbered : whole.Numbered) :
    (whole.select p).Supplied := by
  intro k t there s drawn
  obtain ⟨u, found, same⟩ := exists_whole_of_select numbered there
  rw [← Table.body_sequenceIds, ← same, Table.body_sequenceIds] at drawn
  obtain ⟨q, supply⟩ := h found s drawn
  rw [tables_select numbered.addressed] at there
  rw [select_eq numbered.addressed]
  refine exists_sequence_foldl_withDependencies numbered (OrderedMap.mem_values there) ?_ supply
  rw [← Table.body_sequenceIds, ← same]
  exact drawn

/-- The catalog with a table of another one taken over, joined to nothing. -/
def copied (c other : Catalog) (t : Table) : Catalog :=
  withDependencies
    { c with
      tables := c.tables.insert t.id { t with parentJoin := none }
      nextId := max c.nextId other.nextId } other { t with parentJoin := none }

theorem wp_copyTable {post : Unit → Catalog → Prop} {fails : Fault → Catalog → Prop}
    (numbered : other.Numbered) (there : other.tables.get? id = some t)
    (foreseen : ∀ f c, f.Foreseen → fails f c)
    (ok : c.tables.get? t.id = none → post () (c.copied other t)) :
    WP (copyTable other id) post fails c := by
  unfold copyTable
  simp only [wp_bind, wp_get, wp_lift_of_ok (table_of_get? there), wp_ite, wp_set]
  refine ⟨fun _ => foreseen _ _ trivial, fun free => ?_⟩
  rw [Bool.or_eq_true, not_or, Bool.not_eq_true, OrderedMap.contains_eq_false_iff] at free
  have same := numbered.id_eq there
  rw [← same] at free ⊢
  exact ok free.1

theorem get?_copied : (c.copied other t).tables.get? k =
    if k = t.id then some { t with parentJoin := none } else c.tables.get? k :=
  OrderedMap.get?_insert ..

@[simp] theorem joins_copied : (c.copied other t).joins = c.joins := rfl

@[simp] theorem nextId_copied : (c.copied other t).nextId = max c.nextId other.nextId := rfl

theorem hook_copied (free : c.tables.get? t.id = none) :
    (c.copied other t).hook k = c.hook k := by
  unfold hook
  rw [get?_copied]
  split
  case isTrue same => rw [same, free]; rfl
  case isFalse => rfl

theorem get?_copied_of_get? (free : c.tables.get? t.id = none)
    (there : c.tables.get? k = some u) : (c.copied other t).tables.get? k = some u := by
  rw [get?_copied, if_neg, there]
  rintro rfl
  rw [free] at there
  cases there

theorem get?_sequences_copied {q : Sequence} (there : c.sequences.get? s = some q) :
    (c.copied other t).sequences.get? s = some q :=
  OrderedMap.get?_foldl_insertNew there

/-- What comes along with a table are the sequences it draws from. -/
theorem mem_of_get?_sequences_copied (h : other.Numbered) {q : Sequence}
    (there : (c.copied other t).sequences.get? s = some q) :
    c.sequences.get? s = some q ∨ s ∈ t.sequenceIds ∧ s ≤ other.nextId := by
  refine (OrderedMap.get?_of_foldl_insertNew there).imp_right ?_
  rintro ⟨inside, rfl⟩
  obtain ⟨id, drawn, found⟩ := List.mem_filterMap.1 inside
  obtain ⟨same, old⟩ := h.sequences found
  rw [same]
  exact ⟨drawn, old⟩

theorem Intact.copied (h : c.Intact) (h' : other.Numbered)
    (there : other.tables.get? id = some t) (free : c.tables.get? t.id = none) :
    (c.copied other t).Intact := by
  have le : c.nextId ≤ max c.nextId other.nextId := Nat.le_max_left ..
  have own : t.id ≤ max c.nextId other.nextId := by
    rw [h'.id_eq there]
    exact Nat.le_trans (h'.tables_le there) (Nat.le_max_right ..)
  have groups ⦃k u⦄ (there : c.tables.get? k = some u) :
      (c.copied other t).groupOf k = c.groupOf k := by
    rw [groupOf_of_get? there, groupOf_of_get? (get?_copied_of_get? free there)]
  refine Intact.withDependencies ?_ h' (Nat.le_max_right ..)
  refine
    { tables := (h.tables.mono le).insert rfl own
      joins := h.joins.mono le
      groups := h.groups.mono le
      sequences := h.sequences.mono le
      hook_iff := fun k i => ?_
      parent := fun i j there => ?_
      shared := fun i j there => ?_ }
  · exact (hook_copied free : (c.copied other t).hook k = c.hook k) ▸ h.hook_iff k i
  · obtain ⟨u, found⟩ := h.parent there
    exact ⟨u, (get?_copied_of_get? free found : (c.copied other t).tables.get? j.parent = some u)⟩
  · obtain ⟨u, above⟩ := h.parent there
    obtain ⟨v, below, _⟩ := h.toLinked.child there
    exact (groups below).trans ((h.shared there).trans (groups above).symm)

theorem Sourced.copied (h : other.Sourced c) (numbered : other.Numbered) :
    other.Sourced (c.copied other t) :=
  Sourced.withDependencies h numbered

theorem Supplied.copied (h : c.Supplied) (h' : other.Supplied) (numbered : other.Numbered)
    (there : other.tables.get? id = some t) : (c.copied other t).Supplied := by
  intro k u found s drawn
  rw [get?_copied] at found
  split at found
  · cases found
    obtain ⟨q, supply⟩ := h' there s drawn
    exact exists_sequence_withDependencies numbered drawn supply
  · obtain ⟨q, supply⟩ := h found s drawn
    exact ⟨q, get?_sequences_withDependencies supply⟩

end GroupedTables.Catalog
