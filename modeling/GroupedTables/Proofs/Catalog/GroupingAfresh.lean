import GroupedTables.Proofs.Catalog.Counting
import GroupedTables.Proofs.Catalog.Groups
import GroupedTables.Proofs.Catalog.Validation

/-!
# Grouping whatever the groups were

Before a grouping the groups may tell anything: a group may have a root that is a child or is not
there, several groups may claim one root, and a table may be in the group of another tree or in one
that does not exist. All that counts of them is which roots are in a group of their own. Those stay
in it, and each other root gets a new one; the tables below follow their root, and every group that
is not the one of its root goes.

The trees are grouped one after the other, each on the catalog that the ones before left. A group
that is that of its root stays so throughout, and so does a root that is in none of its own, until
its turn comes: no tree shares a table with another one, and a new group is that of another root.
-/

namespace GroupedTables.Catalog

open Relation

variable {c c' : Catalog} {k x root : TableId} {g : GroupId} {group : Group} {t : Table}
  {roots : List TableId}

section

open scoped Unbounded

/-- A group is the one that its root is in. -/
structure Headed (c : Catalog) (g : GroupId) (group : Group) : Prop where
  found : c.groups.get? g = some group
  inside : c.groupOf group.root = some g

theorem Headed.ownGroup?_eq (h : c.Headed g group) : c.ownGroup? group.root = some g :=
  ownGroup?_eq_some_iff.2 ⟨h.inside, group, h.found, rfl⟩

theorem Headed.groupTree (h : c.Headed g group) (numbered : c.Numbered) (linked : c.Linked)
    (top : c.hook group.root = none) (top' : c.hook root = none) :
    (c.groupTree root).Headed g group := by
  obtain ⟨t, there, _⟩ := exists_of_groupOf h.inside
  refine ⟨groups_groupTree ▸ get?_groups_ensureGroup numbered h.found, ?_⟩
  rw [groupOf_groupTree ⟨t, there⟩]
  split
  case isTrue member =>
    obtain rfl := linked.top_unique .refl (mem_subtree_iff.1 member) top top'
    simp only [ensureGroup, h.ownGroup?_eq]
  case isFalse => exact h.inside

theorem Headed.foldl_groupTree (h : c.Headed g group) (numbered : c.Numbered) (linked : c.Linked)
    (top : c.hook group.root = none) (tops : ∀ root ∈ roots, c.hook root = none) :
    (roots.foldl Catalog.groupTree c).Headed g group := by
  induction roots generalizing c with
  | nil => exact h
  | cons root rest ih =>
    obtain ⟨first, others⟩ := List.forall_mem_cons.1 tops
    exact ih (h.groupTree numbered linked top first) numbered.groupTree linked.groupTree
      (hook_groupTree.trans top) fun x inside => hook_groupTree.trans (others x inside)

theorem headed_groupTree (there : c.tables.get? root = some t) (own : c.ownGroup? root = none) :
    (c.groupTree root).Headed (c.nextId + 1)
      { id := c.nextId + 1, name := t.name.name, root } := by
  have ensured : (c.ensureGroup root).1 = c.nextId + 1 ∧
      (c.ensureGroup root).2.groups = c.groups.insert (c.nextId + 1)
        { id := c.nextId + 1, name := t.name.name, root } := by
    simp only [ensureGroup, own, there, Option.map_some, Option.getD_some, Unbounded.next_eq,
      and_self]
  constructor
  case found => rw [groups_groupTree, ensured.2, OrderedMap.get?_insert, if_pos rfl]
  case inside => rw [groupOf_groupTree ⟨t, there⟩, if_pos self_mem_subtree, ensured.1]

/-- A group that is new is that of the root it was made for. -/
theorem root_of_get?_ensureGroup (found : (c.ensureGroup root).2.groups.get? g = some group) :
    c.groups.get? g = some group ∨ group.root = root := by
  unfold ensureGroup at found
  split at found
  case h_1 => exact .inl found
  case h_2 =>
    rw [OrderedMap.get?_insert] at found
    split at found
    · cases found
      exact .inr rfl
    · exact .inl found

theorem ownGroup?_groupTree_of_ne (own : c.ownGroup? x = none) (linked : c.Linked)
    (top : c.hook x = none) (top' : c.hook root = none) (other : x ≠ root) :
    (c.groupTree root).ownGroup? x = none := by
  apply Option.eq_none_iff_forall_ne_some.2
  intro g own'
  obtain ⟨inside, group, found, rfl⟩ := ownGroup?_eq_some_iff.1 own'
  obtain ⟨_, there, _⟩ := exists_of_groupOf inside
  have apart : group.root ∉ c.subtree root := fun member =>
    other (linked.top_unique .refl (mem_subtree_iff.1 member) top top')
  rw [groupOf_groupTree ((exists_map tables_groupTree).1 ⟨_, there⟩), if_neg apart] at inside
  rw [groups_groupTree] at found
  obtain old | new := root_of_get?_ensureGroup found
  · exact absurd (Headed.mk old inside).ownGroup?_eq (own ▸ nofun)
  · exact other new

/-- When its turn comes, the root gets a new group. -/
theorem exists_headed_foldl_groupTree (numbered : c.Numbered) (linked : c.Linked)
    (tops : ∀ root ∈ roots, c.hook root = none) (inside : root ∈ roots)
    (there : c.tables.get? root = some t) (own : c.ownGroup? root = none) :
    ∃ g, c.nextId < g ∧ (roots.foldl Catalog.groupTree c).Headed g
      { id := g, name := t.name.name, root } := by
  induction roots generalizing c t with
  | nil => cases inside
  | cons first rest ih =>
    have top := tops root inside
    obtain ⟨top', others⟩ := List.forall_mem_cons.1 tops
    have tops' : ∀ x ∈ rest, (c.groupTree first).hook x = none :=
      fun x inside => hook_groupTree.trans (others x inside)
    by_cases same : root = first
    · subst same
      exact ⟨_, Nat.lt_succ_self _, (headed_groupTree there own).foldl_groupTree numbered.groupTree
        linked.groupTree (hook_groupTree.trans top) tops'⟩
    · obtain ⟨t', there', body⟩ := exists_of_bodies bodies_groupTree there
      have name : t'.name = t.name := (congrArg Table.name body :)
      obtain ⟨g, above, headed⟩ := ih numbered.groupTree linked.groupTree tops'
        ((List.mem_cons.1 inside).resolve_left same) there'
        (ownGroup?_groupTree_of_ne own linked top top' same)
      refine ⟨g, Nat.lt_of_le_of_lt ?_ above, name ▸ headed⟩
      rw [nextId_groupTree]
      exact Nat.le_add_right ..

/-- A group that is the one of its root is kept in the end. -/
theorem Headed.regrouped (h : (c.roots.foldl Catalog.groupTree c).Headed g group)
    (top : c.hook group.root = none) : c.regrouped.groups.get? g = some group := by
  have top' : (c.roots.foldl Catalog.groupTree c).hook group.root = none :=
    (hook_regrouped (c := c)).trans top
  rw [regrouped_eq, OrderedMap.get?_filter, h.found]
  exact Option.filter_some_pos (isLiveGroup_iff.2 ⟨top', h.inside⟩)

theorem Numbered.regrouped (h : c.Numbered) : c.regrouped.Numbered := by
  have grouped (roots : List TableId) : (roots.foldl Catalog.groupTree c).Numbered := by
    induction roots generalizing c with
    | nil => exact h
    | cons root rest ih => exact ih h.groupTree
  exact { grouped c.roots with groups := (grouped c.roots).groups.filter _ }

/-- Grouping changes nothing of a table but the group it is in. -/
theorem exists_group_of_bodies (same : c'.bodies = c.bodies) (hooks : ∀ k, c'.hook k = c.hook k)
    (there : c.tables.get? k = some t) (inside : c'.groupOf k = some g) :
    c'.tables.get? k = some { t with group := some g } := by
  obtain ⟨t', there', body⟩ := exists_of_bodies same there
  have parentJoin : t'.parentJoin = t.parentJoin := by
    rw [← hook_of_get? there', hooks, hook_of_get? there]
  have grouped : t'.group = some g := (groupOf_of_get? there').symm.trans inside
  have others : { t'.body with parentJoin := t'.parentJoin, group := t'.group } =
      { t.body with parentJoin := t.parentJoin, group := some g } := by
    rw [body, parentJoin, grouped]
  exact there'.trans (congrArg some others)

/-- What grouping is to make of a catalog, whatever its groups were. -/
structure Regroups (c c' : Catalog) : Prop where
  numbered : c'.Numbered
  joins : c'.joins = c.joins
  sequences : c'.sequences = c.sequences
  keys : c'.tables.keys = c.tables.keys
  /-- A table is put into a group with the root of its tree and is otherwise as it was. -/
  tables : ∀ ⦃k t⦄, c.tables.get? k = some t → ∃ g group, c'.tables.get? k =
    some { t with group := some g } ∧ c'.groups.get? g = some group ∧ c.rootOf k = .ok group.root
  /-- The root of every group is the root of a tree … -/
  roots : ∀ ⦃g group⦄, c'.groups.get? g = some group →
    ∃ t, c.tables.get? group.root = some t ∧ t.isRoot = true
  /-- … and every root of a tree is the root of one group. -/
  own : ∀ ⦃root t⦄, c.tables.get? root = some t → t.isRoot = true →
    ∃! g, ∃ group, c'.groups.get? g = some group ∧ group.root = root
  /-- A root that was in a group of its own stays in it. -/
  kept : ∀ ⦃root t g group⦄, c.tables.get? root = some t → t.isRoot = true → t.group = some g →
    c.groups.get? g = some group → group.root = root → c'.groups.get? g = some group
  /-- Any other root gets a group with its name under an id that nothing had. -/
  new : ∀ ⦃root t⦄, c.tables.get? root = some t → t.isRoot = true →
    (∀ g group, t.group = some g → c.groups.get? g = some group → group.root ≠ root) →
      ∃ g, c.nextId < g ∧ c'.groups.get? g = some { id := g, name := t.name.name, root }

theorem regroups_regrouped (numbered : c.Numbered) (linked : c.Linked) (acyclic : c.Acyclic) :
    c.Regroups c.regrouped := by
  have grouped := linked.grouped_regrouped numbered
  have tops : ∀ root ∈ c.roots, c.hook root = none := fun _ => hook_of_mem_roots numbered
  have owned ⦃root t⦄ (there : c.tables.get? root = some t) (top : c.hook root = none) :
      c.regrouped.Owned root := by
    obtain ⟨t', there', _⟩ := exists_of_bodies bodies_regrouped there
    exact grouped.owned there' (hook_regrouped.trans top)
  constructor
  case numbered => exact numbered.regrouped
  case joins => exact joins_regrouped
  case sequences => exact sequences_regrouped
  case keys =>
    have keys := congrArg OrderedMap.keys (bodies_regrouped (c := c))
    rwa [bodies, bodies, OrderedMap.keys_map, OrderedMap.keys_map] at keys
  case tables =>
    intro k t there
    obtain ⟨root, ended⟩ := linked.exists_rootOf acyclic ⟨t, there⟩
    obtain ⟨below, top⟩ := (linked.rootOf_eq_ok_iff ⟨t, there⟩).1 ended
    obtain ⟨u, higher⟩ := linked.exists_of_above ⟨t, there⟩ below
    obtain ⟨g, group, found, rfl, members⟩ := owned higher top
    refine ⟨g, group, ?_, found, ended⟩
    refine exists_group_of_bodies bodies_regrouped (fun _ => hook_regrouped) there (members k ?_)
    rwa [below_congr joins_regrouped]
  case roots =>
    intro g group found
    obtain ⟨top, inside⟩ := grouped.live found
    obtain ⟨_, there, _⟩ := exists_of_groupOf inside
    obtain ⟨t, there, _⟩ := exists_of_bodies bodies_regrouped.symm there
    exact ⟨t, there, (isRoot_iff_hook there).2 (hook_regrouped.symm.trans top)⟩
  case own =>
    intro root t there top
    obtain ⟨g, group, found, rfl, members⟩ := owned there ((isRoot_iff_hook there).1 top)
    refine ⟨g, ⟨group, found, rfl⟩, ?_⟩
    rintro g' ⟨group', found', same⟩
    have inside := (grouped.live found').2
    rw [same, members _ .refl] at inside
    exact (Option.some.inj inside).symm
  case kept =>
    rintro root t g group there top named found rfl
    have top := (isRoot_iff_hook there).1 top
    have headed : c.Headed g group := ⟨found, (groupOf_of_get? there).trans named⟩
    exact (headed.foldl_groupTree numbered linked top tops).regrouped top
  case new =>
    intro root t there top others
    have listed : root ∈ c.roots :=
      (mem_roots_iff numbered).2 ⟨t, there, Option.isNone_iff_eq_none.1 top⟩
    have own : c.ownGroup? root = none := by
      apply Option.eq_none_iff_forall_ne_some.2
      intro g own
      obtain ⟨inside, group, found, rooted⟩ := ownGroup?_eq_some_iff.1 own
      exact others g group ((groupOf_of_get? there).symm.trans inside) found rooted
    obtain ⟨g, above, headed⟩ :=
      exists_headed_foldl_groupTree numbered linked tops listed there own
    exact ⟨g, above, headed.regrouped ((isRoot_iff_hook there).1 top)⟩

end

/-- The shop with groups that are out of date: there is only one, of orders, which are no root, and
no table is in it. Customers are in a group that is not there yet and whose id comes next. -/
def outdated : Catalog :=
  { shop with
    tables := shop.tables.map fun k t => { t with group := some (k + 5) }
    groups := .ofList [(4, { id := 4, name := "order", root := 2 })] }

end GroupedTables.Catalog
