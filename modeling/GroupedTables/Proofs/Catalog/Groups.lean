import GroupedTables.Proofs.Catalog.Renaming
import GroupedTables.Proofs.Catalog.Rooting

/-!
# Groups and trees

Between two groupings a table is in the group of its tree or in none: whatever takes a table
out of a tree takes it out of the group as well. Groups without tables may be left over, and
trees without a group are not grouped by any other edit. A grouped catalog has one group for
each tree and no other; grouping makes it so whatever the groups were before, and it changes
nothing where it is so already.
-/

namespace GroupedTables.Catalog

open Relation
open scoped Unbounded

variable {c c' : Catalog} {k x parent child root : TableId} {i : JoinId} {g : GroupId}
  {t p : Table} {group : Group} {columns : List JoinColumn}

theorem exists_of_groupOf (inside : c.groupOf k = some g) :
    ∃ t, c.tables.get? k = some t ∧ t.group = some g :=
  Option.bind_eq_some_iff.1 inside

/-- What is below what is a matter of the joins alone. -/
theorem below_congr (same : c'.joins = c.joins) : c'.Below = c.Below := by
  unfold Below Hangs
  rw [same]

/-- Below a table that exists are tables that exist. -/
theorem Linked.exists_of_below (h : c.Linked) (there : ∃ t, c.tables.get? x = some t)
    (below : c.Below x k) : ∃ t, c.tables.get? k = some t :=
  h.exists_of_mem_subtree there (mem_subtree_iff.2 below)

/-- The group a table is in exists, and its root is the root of the tree of the table. -/
def Led (c : Catalog) : Prop :=
  ∀ ⦃k g⦄, c.groupOf k = some g →
    ∃ group, c.groups.get? g = some group ∧ c.Below group.root k ∧ c.hook group.root = none

/-- What leaves groups and trees alone leaves every group with its tree. -/
theorem Led.congr (h : c.Led) (groupOf : ∀ k, c'.groupOf k = c.groupOf k)
    (groups : c'.groups = c.groups) (hangs : ∀ ⦃a b⦄, c.Hangs a b → c'.Hangs a b)
    (hook : ∀ k, c'.hook k = c.hook k) : c'.Led := by
  intro k g inside
  rw [groupOf] at inside
  obtain ⟨group, found, below, top⟩ := h inside
  exact ⟨group, groups ▸ found, ReflTransGen.mono hangs _ _ below, (hook _).trans top⟩

theorem Led.editing {f : Table → Table} (h : c.Led) (parents : ∀ t, (f t).parentJoin = t.parentJoin)
    (groups : ∀ t, (f t).group = t.group) : (c.editing x f).Led := by
  refine h.congr (fun k => groupOf_map tables_editing fun t _ => ?_) rfl (fun _ _ => id)
    fun k => hook_map tables_editing fun t _ => ?_
  · split
    · exact groups t
    · rfl
  · split
    · exact parents t
    · rfl

/-- A way down is still there when a table is taken off its parent, or it led through the
table. -/
theorem below_or_below_of_detached (parent : TableId) (h : c.Linked) (below : c.Below k x) :
    (c.detached parent).Below k x ∨ (c.detached parent).Below parent x := by
  induction below with
  | refl => exact .inl .refl
  | tail _ hangs ih =>
    obtain ⟨i, j, there, rfl, rfl⟩ := hangs_iff.1 hangs
    by_cases same : j.child = parent
    · exact .inr (same ▸ .refl)
    · have kept : (c.detached parent).Hangs j.parent j.child := by
        refine hangs_iff.2 ⟨i, j, ?_, rfl, rfl⟩
        rw [joins_detached h, OrderedMap.get?_filter, there]
        simpa using same
      exact ih.imp (·.tail kept) (·.tail kept)

theorem Led.detached (h : c.Led) (linked : c.Linked) : (c.detached x).Led := by
  cases hung : c.hook x with
  | none => rwa [detached_of_root hung]
  | some i =>
    intro k g inside
    rw [groupOf_detached hung] at inside
    split at inside
    case isTrue => cases inside
    case isFalse outside =>
      obtain ⟨group, found, below, top⟩ := h inside
      refine ⟨group, by rwa [groups_detached], ?_, ?_⟩
      · obtain below | below := below_or_below_of_detached x linked below
        · exact below
        · exact absurd (mem_subtree_iff.2 below) outside
      · rw [hook_detached]
        split
        · rfl
        · exact top

theorem Led.foldl_detached (h : c.Led) (intact : c.Intact) (tables : List TableId) :
    (tables.foldl Catalog.detached c).Led := by
  induction tables generalizing c with
  | nil => exact h
  | cons x rest ih => exact ih (h.detached intact.toLinked) intact.detached

theorem Led.isolated (h : c.Led) (intact : c.Intact) : (c.isolated x).Led :=
  (h.foldl_detached intact _).detached (intact.foldl_detached _).toLinked

/-- A table that is joined to nothing is alone in its tree, so no group is missed that is
removed with it. -/
theorem Led.removed (h : c.Led) (intact : c.Intact) : (c.removed x t).Led := by
  intro k g inside
  obtain ⟨u, there, grouped⟩ := exists_of_groupOf inside
  have other : k ≠ x := by
    rintro rfl
    rw [get?_removed_self] at there
    cases there
  have inside : (c.isolated x).groupOf k = some g := by
    rwa [groupOf, ← get?_erased other]
  obtain ⟨group, found, below, top⟩ := h.isolated intact inside
  have rooted : group.root ≠ x := by
    rintro rfl
    obtain same | ⟨y, hangs, _⟩ := below.cases_head
    · exact other same.symm
    · obtain ⟨i, j, there, above, _⟩ := hangs_iff.1 hangs
      rw [joins_isolated intact.toLinked, OrderedMap.get?_filter,
        Option.filter_eq_some_iff] at there
      simp [above] at there
  refine ⟨group, ?_, below, hook_erased.trans top⟩
  have kept : (c.removed x t).groups.get? g = ((c.isolated x).groups.get? g).filter
      (·.root != x) := OrderedMap.get?_filter ..
  rw [kept, found]
  simpa using rooted

theorem Led.joined (h : c.Led) (numbered : c.Numbered)
    (below : c.tables.get? child = some t) (acyclic : parent ∉ c.subtree child) :
    (c.joined parent child columns).Led := by
  have more ⦃a b : TableId⦄ (way : c.Below a b) : (c.joined parent child columns).Below a b :=
    ReflTransGen.mono (fun _ _ hangs => (hangs_hooked numbered).2 (.inl hangs)) _ _ way
  have down : (c.joined parent child columns).Hangs parent child :=
    (hangs_hooked numbered).2 (.inr ⟨rfl, rfl⟩)
  have other ⦃root : TableId⦄ (top : c.hook root = none) (apart : root ≠ child) :
      (c.joined parent child columns).hook root = none := by
    rw [hook_joined below, if_neg apart, top]
  intro k g inside
  obtain ⟨_, there, _⟩ := exists_of_groupOf inside
  obtain ⟨u, there, _⟩ := exists_of_bodies bodies_joined.symm there
  rw [Catalog.joined, groupOf_inGroup ((exists_map tables_hooked).2 ⟨u, there⟩), groupOf_hooked]
    at inside
  simp only [mem_subtree_hooked numbered acyclic] at inside
  split at inside
  case isTrue member =>
    obtain ⟨group, found, way, top⟩ := h inside
    refine ⟨group, found, ?_, other top ?_⟩
    · exact ((more way).tail down).trans (more (mem_subtree_iff.1 member))
    · rintro rfl
      exact acyclic (mem_subtree_iff.2 way)
  case isFalse outside =>
    obtain ⟨group, found, way, top⟩ := h inside
    refine ⟨group, found, more way, other top ?_⟩
    rintro rfl
    exact outside (mem_subtree_iff.2 way)

/-- The tree under a root is in a group of its own. -/
def Owned (c : Catalog) (root : TableId) : Prop :=
  ∃ g group, c.groups.get? g = some group ∧ group.root = root ∧
    ∀ k, c.Below root k → c.groupOf k = some g

/-- Every tree is in a group of its own, and there is no other group. -/
structure Grouped (c : Catalog) : Prop where
  owned : ∀ ⦃root t⦄, c.tables.get? root = some t → c.hook root = none → c.Owned root
  live : ∀ ⦃g group⦄, c.groups.get? g = some group →
    c.hook group.root = none ∧ c.groupOf group.root = some g

/-- A grouped table is in the group of its tree. -/
theorem Grouped.led (h : c.Grouped) (linked : c.Linked) (acyclic : c.Acyclic) : c.Led := by
  intro k g inside
  obtain ⟨t, there, _⟩ := exists_of_groupOf inside
  obtain ⟨root, ended⟩ := linked.exists_rootOf acyclic ⟨t, there⟩
  obtain ⟨below, top⟩ := (linked.rootOf_eq_ok_iff ⟨t, there⟩).1 ended
  obtain ⟨u, higher⟩ := linked.exists_of_above ⟨t, there⟩ below
  obtain ⟨g', group, found, rfl, members⟩ := h.owned higher top
  cases (members k below).symm.trans inside
  exact ⟨group, found, below, top⟩

theorem isLiveGroup_iff : c.isLiveGroup g group = true ↔
    c.hook group.root = none ∧ c.groupOf group.root = some g := by
  rw [isLiveGroup]
  cases there : c.tables.get? group.root with
  | none => simp [groupOf, there]
  | some t => simp [hook_of_get? there, groupOf_of_get? there, Table.isRoot, and_comm]

theorem ownGroup?_eq_some_iff : c.ownGroup? root = some g ↔
    c.groupOf root = some g ∧ ∃ group, c.groups.get? g = some group ∧ group.root = root := by
  rw [ownGroup?, Option.filter_eq_some_iff, groupOf]
  apply and_congr Iff.rfl
  cases c.groups.get? g <;> simp

theorem mem_roots_iff (h : c.Numbered) :
    root ∈ c.roots ↔ ∃ t, c.tables.get? root = some t ∧ t.parentJoin = none := by
  simp only [roots, List.mem_map, List.mem_filter, Table.isRoot, Option.isNone_iff_eq_none]
  constructor
  · rintro ⟨t, ⟨listed, top⟩, rfl⟩
    exact ⟨t, h.get?_of_mem listed, top⟩
  · rintro ⟨t, there, top⟩
    exact ⟨t, ⟨OrderedMap.mem_values there, top⟩, h.id_eq there⟩

/-- The root has the group that was made sure of. -/
theorem exists_ensureGroup (c : Catalog) (root : TableId) : ∃ group,
    (c.ensureGroup root).2.groups.get? (c.ensureGroup root).1 = some group ∧
      group.root = root := by
  unfold ensureGroup
  split
  case h_1 g own => exact (ownGroup?_eq_some_iff.1 own).2
  case h_2 => exact ⟨_, (OrderedMap.get?_insert ..).trans (if_pos rfl), rfl⟩

theorem get?_groups_ensureGroup (h : c.Numbered) (there : c.groups.get? g = some group) :
    (c.ensureGroup root).2.groups.get? g = some group := by
  unfold ensureGroup
  split
  case h_1 => exact there
  case h_2 =>
    rw [OrderedMap.get?_insert, if_neg, there]
    exact Nat.ne_of_lt (Nat.lt_succ_of_le (h.groups there).2)

theorem tables_groupTree : (c.groupTree root).tables = c.tables.map fun k t =>
    if k ∈ c.subtree root then { t with group := some (c.ensureGroup root).1 } else t := by
  rw [groupTree_eq, tables_inGroup, tables_ensureGroup, subtree_congr joins_ensureGroup]

@[simp] theorem groups_groupTree :
    (c.groupTree root).groups = (c.ensureGroup root).2.groups := by
  rw [groupTree_eq, groups_inGroup]

theorem groupOf_groupTree (there : ∃ t, c.tables.get? k = some t) :
    (c.groupTree root).groupOf k =
      if k ∈ c.subtree root then some (c.ensureGroup root).1 else c.groupOf k := by
  rw [groupTree_eq, groupOf_inGroup (by rwa [tables_ensureGroup]),
    subtree_congr joins_ensureGroup]
  simp only [groupOf, tables_ensureGroup]

theorem Numbered.groupTree (h : c.Numbered) : (c.groupTree root).Numbered := by
  rw [groupTree_eq]
  exact h.ensureGroup.inGroup

theorem Linked.groupTree (h : c.Linked) : (c.groupTree root).Linked :=
  h.map tables_groupTree joins_groupTree fun k t _ => by split <;> rfl

/-- Whatever the groups were, the tree has its own now. -/
theorem Linked.owned_groupTree (h : c.Linked) (there : ∃ t, c.tables.get? root = some t) :
    (c.groupTree root).Owned root := by
  obtain ⟨group, found, rooted⟩ := exists_ensureGroup c root
  refine ⟨_, group, groups_groupTree ▸ found, rooted, fun k below => ?_⟩
  rw [below_congr joins_groupTree] at below
  rw [groupOf_groupTree (h.exists_of_below there below), if_pos (mem_subtree_iff.2 below)]

/-- No table of one tree is in another one, so grouping one leaves the other in its group. -/
theorem Owned.groupTree (h : c.Owned x) (numbered : c.Numbered) (linked : c.Linked)
    (top : c.hook x = none) (top' : c.hook root = none) (other : x ≠ root) :
    (c.groupTree root).Owned x := by
  obtain ⟨g, group, found, rooted, members⟩ := h
  refine ⟨g, group, ?_, rooted, fun k below => ?_⟩
  · rw [groups_groupTree]
    exact get?_groups_ensureGroup numbered found
  · rw [below_congr joins_groupTree] at below
    obtain ⟨t, there, _⟩ := exists_of_groupOf (members k below)
    rw [groupOf_groupTree ⟨t, there⟩, if_neg, members k below]
    intro inside
    exact other (linked.top_unique below (mem_subtree_iff.1 inside) top top')

/-- A tree that is in its own group stays as it is. -/
theorem Owned.groupTree_eq (h : c.Owned root) : c.groupTree root = c := by
  obtain ⟨g, group, found, rooted, members⟩ := h
  have own : c.ownGroup? root = some g :=
    ownGroup?_eq_some_iff.2 ⟨members root .refl, group, found, rooted⟩
  have ensured : c.ensureGroup root = (g, c) := by rw [ensureGroup, own]
  have tables : (c.inGroup (c.subtree root) (some g)).tables = c.tables := by
    rw [tables_inGroup]
    refine OrderedMap.map_eq_self fun k t there => ?_
    split
    case isTrue inside =>
      have grouped := members k (mem_subtree_iff.1 inside)
      rw [groupOf_of_get? there] at grouped
      rw [← grouped]
    case isFalse => rfl
  rw [Catalog.groupTree_eq, ensured]
  exact congrArg (fun tables => { c with tables }) tables

theorem owned_foldl_groupTree {roots : List TableId} (numbered : c.Numbered) (linked : c.Linked)
    (tops : ∀ root ∈ roots, (∃ t, c.tables.get? root = some t) ∧ c.hook root = none)
    (top : c.hook x = none) (owned : x ∈ roots ∨ c.Owned x) :
    (roots.foldl groupTree c).Owned x := by
  induction roots generalizing c with
  | nil => exact owned.resolve_left nofun
  | cons root rest ih =>
    refine ih numbered.groupTree linked.groupTree (fun k inside => ?_) (hook_groupTree.trans top) ?_
    · obtain ⟨there, top⟩ := tops k (.tail _ inside)
      exact ⟨(exists_map tables_groupTree).2 there, hook_groupTree.trans top⟩
    · obtain ⟨there, top'⟩ := tops root (.head _)
      by_cases same : x = root
      · exact .inr (same.symm ▸ linked.owned_groupTree there)
      · obtain inside | owned := owned
        · exact .inl ((List.mem_cons.1 inside).resolve_left same)
        · exact .inr (owned.groupTree numbered linked top top' same)

/-- Grouping afresh makes a catalog grouped, whatever its groups were before. -/
theorem Linked.grouped_regrouped (h : c.Linked) (numbered : c.Numbered) : c.regrouped.Grouped := by
  have tops : ∀ root ∈ c.roots, (∃ t, c.tables.get? root = some t) ∧ c.hook root = none := by
    intro root inside
    obtain ⟨t, there, top⟩ := (mem_roots_iff numbered).1 inside
    exact ⟨⟨t, there⟩, (hook_of_get? there).trans top⟩
  have groups : c.regrouped.groups = (c.roots.foldl Catalog.groupTree c).groups.filter
    (c.roots.foldl Catalog.groupTree c).isLiveGroup := rfl
  constructor
  case owned =>
    intro root t there top
    obtain ⟨u, there, _⟩ := exists_of_bodies bodies_regrouped.symm there
    rw [hook_regrouped] at top
    have listed : root ∈ c.roots :=
      (mem_roots_iff numbered).2 ⟨u, there, (hook_of_get? there).symm.trans top⟩
    obtain ⟨g, group, found, rfl, members⟩ :=
      owned_foldl_groupTree numbered h tops top (.inl listed)
    refine ⟨g, group, ?_, rfl, members⟩
    rw [groups, OrderedMap.get?_filter, found, Option.filter_some, if_pos]
    exact isLiveGroup_iff.2 ⟨hook_regrouped.trans top, members _ .refl⟩
  case live =>
    intro g group found
    rw [groups, OrderedMap.get?_filter, Option.filter_eq_some_iff] at found
    exact isLiveGroup_iff.1 found.2

/-- A catalog is left as it is by grouping just if it is grouped. -/
theorem regrouped_eq_self_iff (numbered : c.Numbered) (linked : c.Linked) :
    c.regrouped = c ↔ c.Grouped := by
  constructor
  · intro same
    exact same ▸ linked.grouped_regrouped numbered
  · intro h
    have stays (roots : List TableId) (owned : ∀ root ∈ roots, c.Owned root) :
        roots.foldl Catalog.groupTree c = c := by
      induction roots with
      | nil => rfl
      | cons root rest ih =>
        rw [List.foldl_cons, (owned root (.head _)).groupTree_eq]
        exact ih fun root inside => owned root (.tail _ inside)
    have trees : c.roots.foldl Catalog.groupTree c = c := by
      refine stays c.roots fun root inside => ?_
      obtain ⟨t, there, top⟩ := (mem_roots_iff numbered).1 inside
      exact h.owned there ((hook_of_get? there).trans top)
    have groups : c.groups.filter c.isLiveGroup = c.groups :=
      OrderedMap.filter_eq_self fun g group found => isLiveGroup_iff.2 (h.live found)
    rw [regrouped_eq, trees, groups]

theorem Linked.regrouped (h : c.Linked) : c.regrouped.Linked where
  hook_iff k i := by rw [hook_regrouped, joins_regrouped]; exact h.hook_iff k i
  parent i j there := by
    obtain ⟨p, above⟩ := h.parent (joins_regrouped ▸ there)
    obtain ⟨p', above', _⟩ := exists_of_bodies bodies_regrouped above
    exact ⟨p', above'⟩

theorem Acyclic.regrouped (h : c.Acyclic) : c.regrouped.Acyclic :=
  h.mono fun i j there => by rwa [joins_regrouped] at there

theorem led_regrouped (numbered : c.Numbered) (linked : c.Linked) (acyclic : c.Acyclic) :
    c.regrouped.Led :=
  (linked.grouped_regrouped numbered).led linked.regrouped acyclic.regrouped

end GroupedTables.Catalog
