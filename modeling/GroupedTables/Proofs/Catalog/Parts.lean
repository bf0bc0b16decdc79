import GroupedTables.Proofs.Catalog.Failing
import GroupedTables.Proofs.Catalog.Trees

/-!
# What a part of a catalog holds

A part is cut out of a catalog along four maps at once. It is said here exactly what is in each of
them, whatever test the tables were taken by: the tables that pass, the joins with both ends among
them, and the groups and sequences that they name. A table is changed only if its parent was left
behind, and in the tree of a table none is.

The part has the counter of the whole. What is made in it later has an id above that counter, so
the whole knows it by no id.
-/

namespace GroupedTables.Catalog

open Check Relation

variable {whole part c c' c'' : Catalog} {p : Table → Bool} {k : Nat} {x root : TableId}
  {i : JoinId} {j : Join} {g : GroupId} {group : Group} {s : SequenceId} {q : Sequence} {t : Table}
  {tables : List Table}

theorem groups_foldl_withDependencies : (tables.foldl (·.withDependencies whole) c).groups =
    c.groups.adding whole.groups Group.id (tables.flatMap (·.group.toList)) := by
  induction tables generalizing c with
  | nil => rfl
  | cons t rest ih =>
    rw [List.foldl_cons, ih, List.flatMap_cons, OrderedMap.adding_append]
    rfl

theorem sequences_foldl_withDependencies : (tables.foldl (·.withDependencies whole) c).sequences =
    c.sequences.adding whole.sequences Sequence.id (tables.flatMap Table.sequenceIds) := by
  induction tables generalizing c with
  | nil => rfl
  | cons t rest ih =>
    rw [List.foldl_cons, ih, List.flatMap_cons, OrderedMap.adding_append]
    rfl

/-- The tables of a part name what they name in the whole, apart from their parents. -/
theorem mem_flatMap_restricted {α : Type} {named : Table → List α} {a : α}
    (same : ∀ t : Table, ∀ parentJoin, named { t with parentJoin } = named t) :
    a ∈ (whole.restricted p).tables.values.flatMap named ↔
      ∃ k t, whole.tables.get? k = some t ∧ p t = true ∧ a ∈ named t := by
  simp only [List.mem_flatMap, OrderedMap.mem_values_iff, get?_restricted]
  constructor
  · rintro ⟨_, ⟨k, t, there, passes, rfl⟩, named⟩
    exact ⟨k, t, there, passes, same t _ ▸ named⟩
  · rintro ⟨k, t, there, passes, named⟩
    exact ⟨_, ⟨k, t, there, passes, rfl⟩, (same t _).symm ▸ named⟩

theorem get?_groups_select (h : whole.Numbered) :
    (whole.select p).groups.get? g = some group ↔ whole.groups.get? g = some group ∧
      ∃ k t, whole.tables.get? k = some t ∧ p t = true ∧ t.group = some g := by
  rw [select_eq h.addressed, groups_foldl_withDependencies,
    OrderedMap.get?_adding (fun _ _ there => (h.groups there).1) (fun _ _ there => by cases there),
    mem_flatMap_restricted fun _ _ => rfl]
  simp only [Option.mem_toList]
  exact or_iff_right fun there => by cases there

theorem get?_sequences_select (h : whole.Numbered) :
    (whole.select p).sequences.get? s = some q ↔ whole.sequences.get? s = some q ∧
      ∃ k t, whole.tables.get? k = some t ∧ p t = true ∧ s ∈ t.sequenceIds := by
  rw [select_eq h.addressed, sequences_foldl_withDependencies,
    OrderedMap.get?_adding (fun _ _ there => (h.sequences there).1)
      (fun _ _ there => by cases there),
    mem_flatMap_restricted fun _ _ => rfl]
  exact or_iff_right fun there => by cases there

/-- A table passes the test that a part is taken by. -/
def Taken (whole : Catalog) (p : Table → Bool) (k : TableId) : Prop :=
  ∃ t, whole.tables.get? k = some t ∧ p t = true

/-- A catalog is the part of another one that a test takes out of it. -/
structure Excerpt (whole : Catalog) (p : Table → Bool) (part : Catalog) : Prop where
  wellFormed : part.WellFormed
  /-- A root, and a table whose parent comes along, is as it is in the whole. -/
  kept : ∀ ⦃k t⦄, whole.tables.get? k = some t → p t = true →
    (∀ above, whole.parent k = .ok (some above) → whole.Taken p above) →
      part.tables.get? k = some t
  /-- A table whose parent is left behind is a root, and that is all that changes. -/
  uprooted : ∀ ⦃k t above⦄, whole.tables.get? k = some t → p t = true →
    whole.parent k = .ok (some above) → ¬ whole.Taken p above →
      part.tables.get? k = some { t with parentJoin := none }
  left : ∀ ⦃k⦄, ¬ whole.Taken p k → part.tables.get? k = none
  joins : ∀ ⦃i j⦄, part.joins.get? i = some j ↔
    whole.joins.get? i = some j ∧ whole.Taken p j.parent ∧ whole.Taken p j.child
  groups : ∀ ⦃g group⦄, part.groups.get? g = some group ↔ whole.groups.get? g = some group ∧
    ∃ k t, whole.tables.get? k = some t ∧ p t = true ∧ t.group = some g
  sequences : ∀ ⦃s q⦄, part.sequences.get? s = some q ↔ whole.sequences.get? s = some q ∧
    ∃ k t, whole.tables.get? k = some t ∧ p t = true ∧ s ∈ t.sequenceIds

theorem contains_selected_iff_taken : (whole.selected p).contains k = true ↔ whole.Taken p k := by
  rw [OrderedMap.contains_iff_exists]
  simp only [selected, OrderedMap.get?_filter, Option.filter_eq_some_iff]
  rfl

/-- A join comes along with a table that comes along with its parent. -/
theorem Linked.contains_selectedJoins_iff (h : whole.Linked) (there : whole.tables.get? k = some t)
    (passes : p t = true) (named : t.parentJoin = some i) :
    ∃ above, whole.parent k = .ok (some above) ∧
      ((whole.selectedJoins p).contains i = true ↔ whole.Taken p above) := by
  obtain ⟨j, joined, rfl⟩ := (h.hook_iff k i).1 ((hook_of_get? there).trans named)
  refine ⟨j.parent, h.parent_of_hangs (hangs_iff.2 ⟨i, j, joined, rfl, rfl⟩), ?_⟩
  rw [OrderedMap.contains_iff_exists]
  simp only [get?_selectedJoins, contains_selected_iff_taken]
  constructor
  · rintro ⟨j', joined', above, _⟩
    cases joined.symm.trans joined'
    exact above
  · exact fun above => ⟨j, joined, above, t, there, passes⟩

theorem WellFormed.excerpt_select (h : whole.WellFormed) (p : Table → Bool) :
    Excerpt whole p (whole.select p) where
  wellFormed := h.select p
  kept k t there passes above := by
    rw [tables_select h.numbered.addressed, get?_restricted]
    refine ⟨t, there, passes, ?_⟩
    suffices t.parentJoin.filter (whole.selectedJoins p).contains = t.parentJoin by rw [this]
    cases named : t.parentJoin with
    | none => rfl
    | some i =>
      obtain ⟨higher, found, along⟩ :=
        h.intact.toLinked.contains_selectedJoins_iff there passes named
      exact Option.filter_some_pos (along.2 (above higher found))
  uprooted k t above there passes found behind := by
    rw [tables_select h.numbered.addressed, get?_restricted]
    refine ⟨t, there, passes, ?_⟩
    suffices t.parentJoin.filter (whole.selectedJoins p).contains = none by rw [this]
    cases named : t.parentJoin with
    | none => rfl
    | some i =>
      obtain ⟨higher, found', along⟩ :=
        h.intact.toLinked.contains_selectedJoins_iff there passes named
      cases found.symm.trans found'
      exact Option.filter_some_neg (Bool.eq_false_iff.2 (mt along.1 behind))
  left k outside := by
    rw [tables_select h.numbered.addressed, Option.eq_none_iff_forall_ne_some]
    intro t there
    obtain ⟨u, found, passes, _⟩ := get?_restricted.1 there
    exact outside ⟨u, found, passes⟩
  joins i j := by
    rw [joins_select h.numbered, get?_selectedJoins, contains_selected_iff_taken,
      contains_selected_iff_taken]
  groups _ _ := get?_groups_select h.numbered
  sequences _ _ := get?_sequences_select h.numbered

/-- What an id can be the id of. -/
inductive Kind where
  | table
  | join
  | group
  | sequence

def ids (c : Catalog) : Kind → List Nat
  | .table => c.tables.keys
  | .join => c.joins.keys
  | .group => c.groups.keys
  | .sequence => c.sequences.keys

section

open scoped Unbounded

/-- What came into a catalog has ids above its counter. -/
structure Grows (c c' : Catalog) : Prop where
  counter : c.nextId ≤ c'.nextId
  tables : c.tables.Gains c'.tables c.nextId
  joins : c.joins.Gains c'.joins c.nextId
  groups : c.groups.Gains c'.groups c.nextId
  sequences : c.sequences.Gains c'.sequences c.nextId

/-- Tables come and go with their bodies. -/
theorem gains_tables (bodies : c'.bodies.keys ⊆ c.bodies.keys) {bound : Nat} :
    c.tables.Gains c'.tables bound := by
  simp only [Catalog.bodies, OrderedMap.keys_map] at bodies
  exact .of_subset bodies

theorem gains_tables_of_bodies (bodies : c'.bodies = c.bodies) {bound : Nat} :
    c.tables.Gains c'.tables bound :=
  gains_tables fun _ inside => bodies ▸ inside

namespace Grows

theorem refl (c : Catalog) : c.Grows c :=
  ⟨Nat.le_refl _, .refl _ _, .refl _ _, .refl _ _, .refl _ _⟩

theorem trans (h : c.Grows c') (h' : c'.Grows c'') : c.Grows c'' where
  counter := Nat.le_trans h.counter h'.counter
  tables := h.tables.trans h'.tables h.counter
  joins := h.joins.trans h'.joins h.counter
  groups := h.groups.trans h'.groups h.counter
  sequences := h.sequences.trans h'.sequences h.counter

theorem ids (h : c.Grows c') {kind : Kind} (inside : k ∈ c'.ids kind) :
    k ∈ c.ids kind ∨ c.nextId < k := by
  cases kind with
  | table => exact h.tables inside
  | join => exact h.joins inside
  | group => exact h.groups inside
  | sequence => exact h.sequences inside

theorem groupTree : c.Grows (c.groupTree root) where
  counter := by
    rw [nextId_groupTree]
    exact Nat.le_add_right ..
  tables := gains_tables_of_bodies bodies_groupTree
  joins := by
    rw [joins_groupTree]
    exact .refl _ _
  groups := by
    rw [groupTree_eq, groups_inGroup, ensureGroup]
    split
    · exact .refl _ _
    · exact .insert (Nat.lt_succ_self _)
  sequences := by
    rw [sequences_groupTree]
    exact .refl _ _

theorem regrouped : c.Grows c.regrouped := by
  have loop (roots : List TableId) (c : Catalog) : c.Grows (roots.foldl Catalog.groupTree c) := by
    induction roots generalizing c with
    | nil => exact .refl c
    | cons root rest ih => exact groupTree.trans (ih _)
  have grown := loop c.roots c
  exact { grown with groups := grown.groups.trans (.filter _) (Nat.le_refl _) }

theorem removed (h : c.Linked) : c.Grows (c.removed x t) where
  counter := Nat.le_of_eq nextId_removed.symm
  tables := gains_tables fun _ inside => by
    rw [bodies_removed] at inside
    exact (List.filter_sublist.map _).subset inside
  joins := by
    rw [joins_removed h]
    exact .filter _
  groups := by
    have same : (c.erased x).groups = c.groups := groups_isolated
    rw [Catalog.removed, same]
    exact .filter _
  sequences := by
    have same : (c.erased x).sequences = c.sequences := sequences_isolated
    rw [Catalog.removed, same]
    exact .foldl_erase _

theorem detached (h : c.Linked) : c.Grows (c.detached x) where
  counter := Nat.le_of_eq nextId_detached.symm
  tables := gains_tables_of_bodies bodies_detached
  joins := by
    rw [joins_detached h]
    exact .filter _
  groups := by
    rw [groups_detached]
    exact .refl _ _
  sequences := by
    rw [sequences_detached]
    exact .refl _ _

theorem step (h : c.Linked) (taken : c.Step c') : c.Grows c' := by
  have all := Grows.refl c
  have later := taken.nextId_le
  have up : c.nextId < c.nextId + 1 := Nat.lt_succ_self _
  cases taken with
  | created => exact { all with counter := later, tables := .insert up }
  | renamed => exact { all with tables := .modify }
  | removed => exact removed h
  | revised => exact { all with tables := .modify }
  | joined =>
    exact { all with
      counter := later
      tables := gains_tables_of_bodies bodies_joined
      joins := .insert up }
  | detached => exact detached h
  | repaired => exact { all with joins := .modify }
  | regrouped => exact regrouped
  | supplying => exact { all with counter := later, sequences := .insert up }
  | unsupplied => exact { all with sequences := .filter _ }

theorem steps (h : c.Intact) (taken : c.Steps c') : c.Grows c' := by
  induction taken with
  | refl => exact .refl c
  | tail before last ih => exact ih.trans (step (h.steps before).toLinked last)

theorem after (h : c.Intact) (request : Request) : c.Grows (request.after c) :=
  steps h (request.steps_after h)

/-- However many calls there are, none brings in an id that was used at the start. -/
theorem foldl_after (h : c.Intact) (requests : List Request) :
    (requests.foldl Request.after c).Intact ∧ c.Grows (requests.foldl Request.after c) := by
  induction requests generalizing c with
  | nil => exact ⟨h, .refl c⟩
  | cons request rest ih =>
    obtain ⟨intact, grows⟩ := ih (h.after request)
    exact ⟨intact, (after h request).trans grows⟩

end Grows

theorem Numbered.le_of_mem_ids (h : c.Numbered) {kind : Kind} (inside : k ∈ c.ids kind) :
    k ≤ c.nextId := by
  cases kind with
  | table =>
    obtain ⟨_, there⟩ := OrderedMap.mem_keys_iff.1 inside
    exact (h.tables there).2
  | join =>
    obtain ⟨_, there⟩ := OrderedMap.mem_keys_iff.1 inside
    exact (h.joins there).2
  | group =>
    obtain ⟨_, there⟩ := OrderedMap.mem_keys_iff.1 inside
    exact (h.groups there).2
  | sequence =>
    obtain ⟨_, there⟩ := OrderedMap.mem_keys_iff.1 inside
    exact (h.sequences there).2

/-- Whatever was called on a part before, a call brings in ids that the whole does not use, not
even for something else. -/
theorem WellFormed.unused_of_select (h : whole.WellFormed) {requests : List Request}
    {request : Request} {kind : Kind}
    (there : k ∈ (request.after (requests.foldl Request.after (whole.select p))).ids kind)
    (new : k ∉ (requests.foldl Request.after (whole.select p)).ids kind) (kind' : Kind) :
    k ∉ whole.ids kind' := by
  obtain ⟨intact, grown⟩ := Grows.foldl_after (h.select p).intact requests
  have above := ((Grows.after intact request).ids there).resolve_left new
  have start := grown.counter
  rw [nextId_select h.numbered] at start
  intro used
  exact absurd (h.numbered.le_of_mem_ids used) (Nat.not_le.2 (Nat.lt_of_le_of_lt start above))

end

/-- The tree of a table is the root and all below it, each table as it is in the whole. -/
theorem WellFormed.get?_tables_tree_of_top (h : whole.WellFormed) (top : whole.hook root = none) :
    (whole.select (whole.hasRoot root)).tables.get? k = some t ↔
      whole.tables.get? k = some t ∧ whole.Below root k := by
  rw [h.get?_tables_tree]
  refine and_congr_right fun there => ?_
  rw [h.intact.toLinked.rootOf_eq_ok_iff ⟨t, there⟩]
  exact and_iff_left top

/-- A join of a table of the tree is there with its child. -/
theorem WellFormed.joined_tree (h : whole.WellFormed) (top : whole.hook root = none)
    (there : whole.joins.get? i = some j) (below : whole.Below root j.parent) :
    (whole.select (whole.hasRoot root)).joins.get? i = some j ∧
      ∃ u, (whole.select (whole.hasRoot root)).tables.get? j.child = some u := by
  have linked := h.intact.toLinked
  obtain ⟨u, found, _⟩ := linked.child there
  have below' : whole.Below root j.child := below.tail (hangs_iff.2 ⟨i, j, there, rfl, rfl⟩)
  have rooted : whole.rootOf j.child = .ok root :=
    (linked.rootOf_eq_ok_iff ⟨u, found⟩).2 ⟨below', top⟩
  exact ⟨h.get?_joins_tree.2 ⟨there, rooted⟩, u, (h.get?_tables_tree_of_top top).2 ⟨found, below'⟩⟩

end GroupedTables.Catalog
