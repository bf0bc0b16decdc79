import GroupedTables.Proofs.Catalog.Groups
import GroupedTables.Proofs.Catalog.Trees

/-!
# Validation is enough for trees

Validation looks at one table and one join at a time, and goes up from each table so many times.
Whatever a catalog was read from and whatever its counter says: if that finds nothing, joins and
parent joins tell of one forest. The way up and the way down agree in it, so that the tables below a
root are those whose way up ends there, and a group holds all of a tree or nothing of it.
-/

namespace GroupedTables.Catalog

open Check Relation

variable {c : Catalog} {i : JoinId} {j : Join} {k x root above : TableId} {t u : Table}

/-- One table is right above another one, as the other one tells it. -/
def Climbs (c : Catalog) (below above : TableId) : Prop := c.parent below = .ok (some above)

theorem Linked.climbs_iff (h : c.Linked) : c.Climbs k above ↔ c.Hangs above k :=
  ⟨h.hangs_of_parent, h.parent_of_hangs⟩

/-- The way down to a table is its way up. -/
theorem Linked.climbs_of_below (h : c.Linked) (below : c.Below root k) :
    ReflTransGen c.Climbs k root := by
  induction below with
  | refl => exact .refl
  | tail down hangs ih => exact ih.head (h.climbs_iff.2 hangs)

/-- Below a root are the tables whose way up ends there. -/
theorem Linked.mem_subtree_iff_rootOf (h : c.Linked)
    (there : ∃ t, c.tables.get? root = some t) (top : c.hook root = none) :
    k ∈ c.subtree root ↔ (∃ t, c.tables.get? k = some t) ∧ c.rootOf k = .ok root := by
  rw [mem_subtree_iff]
  constructor
  · intro below
    have inside := h.exists_of_below there below
    exact ⟨inside, (h.rootOf_eq_ok_iff inside).2 ⟨below, top⟩⟩
  · rintro ⟨inside, ended⟩
    exact ((h.rootOf_eq_ok_iff inside).1 ended).1

/-- Where joined tables are in one group, all of a tree is. -/
theorem Shared.groupOf_of_below (h : c.Shared) (below : c.Below root k) :
    c.groupOf k = c.groupOf root := by
  induction below with
  | refl => rfl
  | tail _ hangs ih =>
    obtain ⟨i, j, joined, rfl, rfl⟩ := hangs_iff.1 hangs
    exact (h joined).trans ih

/-- The tables of a catalog that are taken along with a tree are those with its root. -/
theorem Addressed.mem_keys_select_iff (h : c.Addressed) :
    k ∈ (c.select (c.hasRoot root)).tables.keys ↔
      (∃ t, c.tables.get? k = some t) ∧ c.rootOf k = .ok root := by
  rw [tables_select h, restricted, OrderedMap.keys_map, ← OrderedMap.contains_iff,
    h.contains_selected_iff]

/-- Joins and tables tell of one forest. -/
structure Forest (c : Catalog) : Prop extends Linked c where
  acyclic : c.Acyclic
  /-- A table hangs under one other table at most. -/
  once : ∀ ⦃a b k⦄, c.Hangs a k → c.Hangs b k → a = b
  /-- The way up from each table ends, and where it ends is the root that is found. -/
  rooted : ∀ ⦃k t⦄, c.tables.get? k = some t → ∃ root top, c.rootOf k = .ok root ∧
    ReflTransGen c.Climbs k root ∧ c.tables.get? root = some top ∧ top.isRoot = true
  /-- The tables of one tree are in one group, or all of them in none. -/
  grouped : ∀ ⦃k x t u root⦄, c.tables.get? k = some t → c.tables.get? x = some u →
    c.rootOf k = .ok root → c.rootOf x = .ok root → t.group = u.group
  /-- The walk down from a root lists the tables with that root, each one once. -/
  listed : ∀ ⦃root top⦄, c.tables.get? root = some top → top.isRoot = true →
    (c.subtree root).Nodup ∧
      ∀ k, k ∈ c.subtree root ↔ (∃ t, c.tables.get? k = some t) ∧ c.rootOf k = .ok root
  /-- The tree of a table is cut out with all tables below its root and no other. -/
  cut : ∀ ⦃k t⦄, c.tables.get? k = some t → ∃ root tree, c.rootOf k = .ok root ∧
    c.selectTree k = .ok tree ∧ tree.tables.keys.Perm (c.subtree root) ∧
      ∀ ⦃x u⦄, c.tables.get? x = some u → (c.hasRoot root u = true ↔ x ∈ c.subtree root)

/-- A catalog whose tables and joins are under their ids is a forest if it passes its validation,
however it came about. -/
theorem forest_of_valid (h : c.Addressed) (valid : c.validate = .ok ()) : c.Forest := by
  have linked := h.linked_of_valid valid
  have acyclic := h.acyclic_of_valid valid
  have exists_root ⦃k t⦄ (there : c.tables.get? k = some t) : ∃ root top, c.rootOf k = .ok root ∧
      c.Below root k ∧ c.tables.get? root = some top ∧ c.hook root = none := by
    obtain ⟨root, ended⟩ := linked.exists_rootOf acyclic ⟨t, there⟩
    obtain ⟨below, off⟩ := (linked.rootOf_eq_ok_iff ⟨t, there⟩).1 ended
    obtain ⟨top, higher⟩ := linked.exists_of_above ⟨t, there⟩ below
    exact ⟨root, top, ended, below, higher, off⟩
  refine { linked with
    acyclic, once := ?once, rooted := ?rooted, grouped := ?grouped, listed := ?listed, cut := ?cut }
  case once =>
    intro a b k hangs hangs'
    obtain ⟨i, j, joined, rfl, rfl⟩ := hangs_iff.1 hangs
    obtain ⟨i', j', joined', rfl, same⟩ := hangs_iff.1 hangs'
    rw [(linked.join_unique joined joined' same.symm).2]
  case rooted =>
    intro k t there
    obtain ⟨root, top, ended, below, higher, off⟩ := exists_root there
    exact ⟨root, top, ended, linked.climbs_of_below below, higher,
      (isRoot_iff_hook higher).2 off⟩
  case grouped =>
    intro k x t u root there there' ended ended'
    have shared := h.shared_of_valid valid
    have below := (linked.rootOf_eq_ok_iff ⟨t, there⟩).1 ended
    have below' := (linked.rootOf_eq_ok_iff ⟨u, there'⟩).1 ended'
    calc t.group = c.groupOf k := (groupOf_of_get? there).symm
      _ = c.groupOf root := shared.groupOf_of_below below.1
      _ = c.groupOf x := (shared.groupOf_of_below below'.1).symm
      _ = u.group := groupOf_of_get? there'
  case listed =>
    intro root top there off
    exact ⟨nodup_subtree, fun k =>
      linked.mem_subtree_iff_rootOf ⟨top, there⟩ ((isRoot_iff_hook there).1 off)⟩
  case cut =>
    intro k t there
    obtain ⟨root, top, ended, _, higher, off⟩ := exists_root there
    have listed (x : TableId) := linked.mem_subtree_iff_rootOf (k := x) ⟨top, higher⟩ off
    refine ⟨root, c.select (c.hasRoot root), ended, ?_, ?_, fun x u found => ?_⟩
    · simp only [selectTree, ended, bind, Except.bind, pure, Except.pure]
    · exact (List.perm_ext_iff_of_nodup (OrderedMap.nodup _) nodup_subtree).2 fun x =>
        h.mem_keys_select_iff.trans (listed x).symm
    · rw [hasRoot_iff, h.tables found, listed]
      exact (and_iff_right ⟨u, found⟩).symm

/-- The shop with the items of orders, read from a text that gives all tables one group and knows
neither groups nor a counter. -/
def market : Catalog where
  tables := .ofList [(6, { orders with id := 6, name := ⟨"shop", "item"⟩, parentJoin := some 7 }),
    (2, orders), (1, customers)]
  joins := .ofList [(7, { id := 7, parent := 2, child := 6, columns := [⟨"number", "customer"⟩] }),
    (3, { id := 3, parent := 1, child := 2, columns := [⟨"number", "customer"⟩] })]
  sequences := shop.sequences

theorem forest_of_valid_market :
    market.Addressed ∧ market.validate = .ok () ∧ market.Forest := by
  have h : market.Addressed := by decide +kernel
  have valid : market.validate = .ok () := by decide +kernel
  exact ⟨h, valid, forest_of_valid h valid⟩

end GroupedTables.Catalog
