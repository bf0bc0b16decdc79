import GroupedTables.Proofs.Catalog.Following
import GroupedTables.Proofs.Catalog.Groups
import GroupedTables.Proofs.Catalog.Validation

/-!
# What becomes of joins when columns are renamed

The joins that touch a table are followed one at a time, and each one that lost a column takes its
child out of the tree before the next one is looked at. The tables below a child are looked up in
what is left of the tree then, so a table may already have been taken away with another child. It
is without a group in either case: what is below the child of a lost join at the start is without
a group in the end, in whatever order the joins come.

It does not matter what groups the tables were in before, nor what the counter says.
-/

namespace GroupedTables

/-- A pair of columns has one of them by its new name, and the other one as it was. -/
def JoinColumn.Follows (old new : JoinColumn) (onChildSide : Bool)
    (rename : String → Option String) : Prop :=
  rename (old.name onChildSide) = some (new.name onChildSide) ∧
    new.name (!onChildSide) = old.name (!onChildSide)

/-- A join has the columns of a table by their new names, and is otherwise the join it was. -/
structure Join.Follows (old new : Join) (x : TableId) (rename : String → Option String) : Prop where
  id : new.id = old.id
  parent : new.parent = old.parent
  child : new.child = old.child
  columns : List.Forall₂ (fun before after => before.Follows after (old.child == x) rename)
    old.columns new.columns

theorem JoinColumn.follows_renamed {pair : JoinColumn} {onChildSide : Bool}
    {rename : String → Option String} (there : (rename (pair.name onChildSide)).isSome) :
    pair.Follows (pair.renamed onChildSide rename) onChildSide rename := by
  obtain ⟨name, renamed⟩ := Option.isSome_iff_exists.1 there
  cases onChildSide with
  | false =>
    have renamed : rename pair.parent = some name := renamed
    simp [Follows, JoinColumn.renamed, JoinColumn.name, renamed]
  | true =>
    have renamed : rename pair.child = some name := renamed
    simp [Follows, JoinColumn.renamed, JoinColumn.name, renamed]

theorem Join.follows_followed {j : Join} {x : TableId} {rename : String → Option String}
    (survives : j.survives x rename = true) : j.Follows (j.followed x rename) x rename := by
  refine ⟨rfl, rfl, rfl, List.forall₂_map_right_iff.2 (List.forall₂_same.2 fun pair inside => ?_)⟩
  exact JoinColumn.follows_renamed (List.all_eq_true.1 survives pair inside)

namespace Catalog

open GroupedTables.Action Relation

variable {c : Catalog} {x k a : TableId} {rename : String → Option String} {i i' : JoinId}
  {j : Join} {joins : List JoinId}

/-- The joins that are not followed stay as they are. -/
theorem get?_joins_followedAt_of_ne (h : c.Linked) (other : i' ≠ i) :
    (c.followedAt x rename i).joins.get? i' = c.joins.get? i' := by
  rw [joins_followedAt h, OrderedMap.get?_map, OrderedMap.get?_filter, bne_iff_ne.2 other]
  cases c.joins.get? i' with
  | none => rfl
  | some j => simp [other]

theorem lostAt_followedAt_of_ne (h : c.Linked) (other : i' ≠ i) :
    (c.followedAt x rename i).lostAt x rename i' = c.lostAt x rename i' := by
  rw [lostAt, get?_joins_followedAt_of_ne h other, lostAt]

/-- A join is lost, and a table is below its child. -/
def CutAt (c : Catalog) (x : TableId) (rename : String → Option String) (i : JoinId)
    (k : TableId) : Prop :=
  ∃ j, c.joins.get? i = some j ∧ j.survives x rename = false ∧ c.Below j.child k

/-- Following a join opens no new way down. -/
theorem below_of_followedAt (h : c.Linked) (below : (c.followedAt x rename i).Below a k) :
    c.Below a k := by
  refine ReflTransGen.mono (fun _ _ hangs => ?_) _ _ below
  obtain ⟨i', j', there, rfl, rfl⟩ := hangs_iff.1 hangs
  rw [joins_followedAt h, OrderedMap.get?_map, Option.map_eq_some_iff] at there
  obtain ⟨j, kept, rfl⟩ := there
  rw [OrderedMap.get?_filter, Option.filter_eq_some_iff] at kept
  refine hangs_iff.2 ⟨i', j, kept.1, ?_⟩
  split <;> exact ⟨rfl, rfl⟩

/-- The ways down that are closed by following a join led through a child that it lost. -/
theorem below_followedAt_or_lost (h : c.Linked) (x : TableId) (rename : String → Option String)
    (i : JoinId) (below : c.Below a k) :
    (c.followedAt x rename i).Below a k ∨ ∃ j, c.joins.get? i = some j ∧
      j.survives x rename = false ∧ (c.followedAt x rename i).Below j.child k := by
  induction below with
  | refl => exact .inl .refl
  | tail _ hangs ih =>
    obtain ⟨i', j, there, rfl, rfl⟩ := hangs_iff.1 hangs
    by_cases gone : i' = i ∧ j.survives x rename = false
    · obtain ⟨rfl, lost⟩ := gone
      exact .inr ⟨j, there, lost, .refl⟩
    · have stays : (i' != i || j.survives x rename) = true := by
        simpa [imp_iff_not_or] using gone
      have kept : (c.followedAt x rename i).Hangs j.parent j.child := by
        refine hangs_iff.2 ⟨i', if i' = i then j.followed x rename else j, ?_, ?_⟩
        · rw [joins_followedAt h, OrderedMap.get?_map, OrderedMap.get?_filter, there,
            Option.filter_some, if_pos stays, Option.map_some]
        · split <;> exact ⟨rfl, rfl⟩
      exact ih.imp (·.tail kept) fun ⟨j', found, lost, way⟩ => ⟨j', found, lost, way.tail kept⟩

/-- A lost join has the same tables below its child once it is gone. -/
theorem cutAt_iff (h : c.Linked) : c.CutAt x rename i k ↔ ∃ j, c.joins.get? i = some j ∧
    j.survives x rename = false ∧ (c.followedAt x rename i).Below j.child k := by
  constructor
  · rintro ⟨j, there, lost, below⟩
    obtain way | cut := below_followedAt_or_lost h x rename i below
    · exact ⟨j, there, lost, way⟩
    · exact cut
  · rintro ⟨j, there, lost, way⟩
    exact ⟨j, there, lost, below_of_followedAt h way⟩

/-- A table that is below the child of a lost join leaves its group, and no other does. -/
theorem groupOf_followedAt (h : c.Linked) (x : TableId) (rename : String → Option String)
    (i : JoinId) (k : TableId) :
    (c.CutAt x rename i k → (c.followedAt x rename i).groupOf k = none) ∧
      (¬ c.CutAt x rename i k → (c.followedAt x rename i).groupOf k = c.groupOf k) := by
  rw [cutAt_iff h]
  cases there : c.joins.get? i with
  | none =>
    rw [followedAt_of_missing there]
    exact ⟨nofun, fun _ => rfl⟩
  | some j =>
    cases survives : j.survives x rename with
    | true =>
      rw [followedAt_of_survives there survives]
      refine ⟨?_, fun _ => rfl⟩
      rintro ⟨_, ⟨⟩, lost, _⟩
      cases survives.symm.trans lost
    | false =>
      have hung : (c.repaired i (j.followed x rename).columns).hook j.child = some i :=
        h.hook_child there
      have same : (c.followedAt x rename i).groupOf k =
          if k ∈ (c.followedAt x rename i).subtree j.child then none else c.groupOf k := by
        rw [followedAt_of_lost there survives, groupOf_detached hung]
        rfl
      rw [same]
      constructor
      · rintro ⟨_, ⟨⟩, _, way⟩
        rw [if_pos (mem_subtree_iff.2 way)]
      · intro uncut
        rw [if_neg fun inside => uncut ⟨j, rfl, survives, mem_subtree_iff.1 inside⟩]

/-- Some join of a list is lost, and a table is below its child. -/
def Cut (c : Catalog) (x : TableId) (rename : String → Option String) (joins : List JoinId)
    (k : TableId) : Prop :=
  ∃ i ∈ joins, c.CutAt x rename i k

/-- What is cut off by the first join needs not be cut off by the others once more. -/
theorem cut_cons_iff (h : c.Linked) (first : i ∉ joins) : c.Cut x rename (i :: joins) k ↔
    c.CutAt x rename i k ∨ (c.followedAt x rename i).Cut x rename joins k := by
  constructor
  · rintro ⟨i', inside, cut⟩
    obtain rfl | inside := List.mem_cons.1 inside
    · exact .inl cut
    · have other : i' ≠ i := fun same => first (same ▸ inside)
      obtain ⟨j, there, lost, below⟩ := cut
      obtain way | cut := below_followedAt_or_lost h x rename i below
      · refine .inr ⟨i', inside, j, ?_, lost, way⟩
        rwa [get?_joins_followedAt_of_ne h other]
      · exact .inl ((cutAt_iff h).2 cut)
  · rintro (cut | ⟨i', inside, j, there, lost, way⟩)
    · exact ⟨i, .head _, cut⟩
    · have other : i' ≠ i := fun same => first (same ▸ inside)
      rw [get?_joins_followedAt_of_ne h other] at there
      exact ⟨i', .tail _ inside, j, there, lost, below_of_followedAt h way⟩

/-- In whatever order the joins come, the tables below the children of the lost ones leave their
groups. -/
theorem groupOf_foldl_followedAt (h : c.Linked) (distinct : joins.Nodup) (k : TableId) :
    (c.Cut x rename joins k →
      (joins.foldl (fun c i => c.followedAt x rename i) c).groupOf k = none) ∧
    (¬ c.Cut x rename joins k →
      (joins.foldl (fun c i => c.followedAt x rename i) c).groupOf k = c.groupOf k) := by
  induction joins generalizing c with
  | nil => exact ⟨nofun, fun _ => rfl⟩
  | cons i rest ih =>
    obtain ⟨first, distinct⟩ := List.nodup_cons.1 distinct
    obtain ⟨cutNow, keptNow⟩ := groupOf_followedAt h x rename i k
    obtain ⟨cutLater, keptLater⟩ := ih h.followedAt distinct
    rw [List.foldl_cons, cut_cons_iff h first]
    constructor
    · rintro (now | later)
      · by_cases later : (c.followedAt x rename i).Cut x rename rest k
        · exact cutLater later
        · rw [keptLater later, cutNow now]
      · exact cutLater later
    · intro uncut
      obtain ⟨now, later⟩ := not_or.1 uncut
      rw [keptLater later, keptNow now]

/-- The joins of a list are all followed, and the lost ones are listed as they come. -/
theorem mapM_remapJoin_eq (h : c.Linked) (distinct : joins.Nodup) :
    joins.mapM (remapJoin x rename) c =
      .ok (joins.map (c.lostAt x rename)) (joins.foldl (fun c i => c.followedAt x rename i) c) := by
  induction joins generalizing c with
  | nil => rfl
  | cons i rest ih =>
    obtain ⟨first, distinct⟩ := List.nodup_cons.1 distinct
    have others : rest.map ((c.followedAt x rename i).lostAt x rename) =
        rest.map (c.lostAt x rename) :=
      List.map_congr_left fun i' inside =>
        lostAt_followedAt_of_ne h fun same => first (same ▸ inside)
    apply eq_ok_of_wp
    rw [List.mapM_cons, wp_bind, wp_of_ok (remapJoin_eq h), wp_bind,
      wp_of_ok (ih h.followedAt distinct), others]
    exact ⟨rfl, rfl⟩

/-- A join touches a table and loses a column on its side. -/
def Loses (c : Catalog) (x : TableId) (rename : String → Option String) (i : JoinId) (j : Join) :
    Prop :=
  c.joins.get? i = some j ∧ j.touches x = true ∧ j.survives x rename = false

/-- The joins that lose a column, with the columns that are still there by their new names. -/
def losses (c : Catalog) (x : TableId) (rename : String → Option String) : List Join :=
  (c.joins.values.filter fun j => j.touches x && !j.survives x rename).map (·.followed x rename)

theorem remapJoinColumns_eq (addressed : c.Addressed) (linked : c.Linked) :
    remapJoinColumns x rename c = .ok (c.losses x rename) (c.following x rename) := by
  have lostAt (j : Join) (inside : j ∈ c.joins.values.filter (·.touches x)) :
      c.lostAt x rename j.id =
        (Option.guard (fun j => !j.survives x rename) j).map (·.followed x rename) := by
    obtain ⟨i, there⟩ := OrderedMap.mem_values_iff.1 (List.mem_filter.1 inside).1
    rw [Catalog.lostAt, addressed.joins there, there, Option.filter_some, Option.guard]
  have listed : ((c.touching x).map (c.lostAt x rename)).filterMap id = c.losses x rename := by
    have split : c.joins.values.filter (fun j => j.touches x && !j.survives x rename) =
        (c.joins.values.filter (·.touches x)).filter (fun j => !j.survives x rename) := by
      rw [List.filter_filter]
      exact List.filter_congr fun j _ => Bool.and_comm ..
    rw [losses, split, ← List.filterMap_eq_filter, List.map_filterMap, List.filterMap_map, touching,
      List.filterMap_map]
    exact List.filterMap_congr lostAt
  apply eq_ok_of_wp
  unfold remapJoinColumns
  simp only [wp_bind, wp_get]
  refine (wp_of_ok (mapM_remapJoin_eq linked (nodup_touching addressed))).2 ⟨?_, rfl⟩
  exact listed

theorem get?_joins_following (addressed : c.Addressed) (linked : c.Linked) :
    (c.following x rename).joins.get? i =
      ((c.joins.get? i).filter fun j => !j.touches x || j.survives x rename).map fun j =>
        if j.touches x then j.followed x rename else j := by
  rw [joins_following addressed linked, OrderedMap.get?_map, OrderedMap.get?_filter]

/-- Every join that is there was there before, between the same tables. -/
theorem exists_join_of_following (addressed : c.Addressed) (linked : c.Linked)
    (there : (c.following x rename).joins.get? i = some j) :
    ∃ j₀, c.joins.get? i = some j₀ ∧ j₀.id = j.id ∧ j₀.child = j.child ∧ j₀.parent = j.parent := by
  rw [get?_joins_following addressed linked, Option.map_eq_some_iff] at there
  obtain ⟨j₀, kept, rfl⟩ := there
  refine ⟨j₀, (Option.filter_eq_some_iff.1 kept).1, ?_⟩
  split <;> exact ⟨rfl, rfl, rfl⟩

/-- What a catalog is once the columns of a table have other names or are gone. -/
structure Remapped (c : Catalog) (x : TableId) (rename : String → Option String)
    (listed : List Join) (c' : Catalog) : Prop where
  /-- A join that lost no column is there, by the new names on the side of the table. -/
  followed : ∀ ⦃i j⦄, c.joins.get? i = some j → j.touches x = true → j.survives x rename = true →
    ∃ j', c'.joins.get? i = some j' ∧ j.Follows j' x rename
  /-- A join that lost a column is gone, its child is a root, and all below is in no group. -/
  lost : ∀ ⦃i j⦄, c.Loses x rename i j → c'.joins.get? i = none ∧ c'.hook j.child = none ∧
    ∀ k, c.Below j.child k → c'.groupOf k = none
  untouched : ∀ ⦃i j⦄, c.joins.get? i = some j → j.touches x = false → c'.joins.get? i = some j
  /-- No join comes in, and the others stay in their order. -/
  order : c'.joins.keys.Sublist c.joins.keys
  hooks : ∀ ⦃k⦄, (∀ i j, c.Loses x rename i j → j.child ≠ k) → c'.hook k = c.hook k
  groupOf : ∀ ⦃k⦄, (∀ i j, c.Loses x rename i j → ¬ c.Below j.child k) →
    c'.groupOf k = c.groupOf k
  bodies : c'.bodies = c.bodies
  groups : c'.groups = c.groups
  sequences : c'.sequences = c.sequences
  nextId : c'.nextId = c.nextId
  /-- The joins that are gone are listed in the order in which they were. -/
  listed : listed = c.losses x rename
  addressed : c'.Addressed
  linked : c'.Linked
  acyclic : c'.Acyclic

theorem cut_touching_iff (addressed : c.Addressed) :
    c.Cut x rename (c.touching x) k ↔ ∃ i j, c.Loses x rename i j ∧ c.Below j.child k := by
  constructor
  · rintro ⟨i, inside, j, there, lost, below⟩
    rw [← List.contains_iff_mem, contains_touching addressed there] at inside
    exact ⟨i, j, ⟨there, inside, lost⟩, below⟩
  · rintro ⟨i, j, ⟨there, touches, lost⟩, below⟩
    rw [← contains_touching addressed there, List.contains_iff_mem] at touches
    exact ⟨i, touches, j, there, lost, below⟩

/-- Only the children of lost joins come off their parents. -/
theorem hook_following (addressed : c.Addressed) (linked : c.Linked)
    (bystander : ∀ i j, c.Loses x rename i j → j.child ≠ k) :
    (c.following x rename).hook k = c.hook k := by
  have linked' : (c.following x rename).Linked := linked.following
  apply Option.ext
  intro i
  rw [linked'.hook_iff, linked.hook_iff]
  simp only [get?_joins_following addressed linked, Option.map_eq_some_iff,
    Option.filter_eq_some_iff]
  constructor
  · rintro ⟨_, ⟨j, ⟨there, _⟩, rfl⟩, below⟩
    refine ⟨j, there, ?_⟩
    split at below <;> exact below
  · rintro ⟨j, there, below⟩
    refine ⟨_, ⟨j, ⟨there, ?_⟩, rfl⟩, ?_⟩
    · cases touches : j.touches x with
      | false => rfl
      | true =>
        refine Bool.not_eq_false _ ▸ fun lost => bystander i j ⟨there, touches, ?_⟩ below
        simpa using lost
    · split <;> exact below

/-- Whatever becomes of the names of the columns of a table: the joins that touch it are followed,
the ones that lost a column are gone and listed, and nothing else changes. -/
theorem remapJoinColumns_remapped (addressed : c.Addressed) (linked : c.Linked)
    (acyclic : c.Acyclic) (x : TableId) (rename : String → Option String) :
    ∃ listed c', remapJoinColumns x rename c = .ok listed c' ∧ c.Remapped x rename listed c' := by
  refine ⟨_, _, remapJoinColumns_eq addressed linked, ?_⟩
  have grouped (k : TableId) : (c.Cut x rename (c.touching x) k →
      (c.following x rename).groupOf k = none) ∧ (¬ c.Cut x rename (c.touching x) k →
      (c.following x rename).groupOf k = c.groupOf k) :=
    groupOf_foldl_followedAt linked (nodup_touching addressed) k
  have linked' : (c.following x rename).Linked := linked.following
  exact {
    followed := fun i j there touches survives => by
      refine ⟨j.followed x rename, ?_, Join.follows_followed survives⟩
      rw [get?_joins_following addressed linked, there]
      simp [touches, survives]
    lost := fun i j ⟨there, touches, lost⟩ => by
      have gone : (c.following x rename).joins.get? i = none := by
        rw [get?_joins_following addressed linked, there]
        simp [touches, lost]
      refine ⟨gone, Option.eq_none_iff_forall_ne_some.2 fun i' hung => ?_, fun k below => ?_⟩
      · obtain ⟨_, there', child⟩ := (linked'.hook_iff _ _).1 hung
        obtain ⟨j₀, before, _, child₀, _⟩ := exists_join_of_following addressed linked there'
        rw [(linked.join_unique before there (child₀.trans child)).1, gone] at there'
        cases there'
      · exact (grouped k).1 ((cut_touching_iff addressed).2 ⟨i, j, ⟨there, touches, lost⟩, below⟩)
    untouched := fun i j there touches => by
      rw [get?_joins_following addressed linked, there]
      simp [touches]
    order := by
      rw [joins_following addressed linked, OrderedMap.keys_map]
      exact List.filter_sublist.map _
    hooks := fun k => hook_following addressed linked
    groupOf := fun k uncut => (grouped k).2 fun cut =>
      have ⟨i, j, lost, below⟩ := (cut_touching_iff addressed).1 cut
      uncut i j lost below
    bodies := bodies_following
    groups := groups_following
    sequences := sequences_following
    nextId := nextId_following
    listed := rfl
    addressed := by
      refine ⟨fun k t there => ?_, fun i j there => ?_⟩
      · obtain ⟨u, before, same⟩ := exists_of_bodies bodies_following.symm there
        rw [← addressed.tables before, ← Table.body_id, ← same, Table.body_id]
      · obtain ⟨j₀, before, id, _⟩ := exists_join_of_following addressed linked there
        exact id.symm.trans (addressed.joins before)
    linked := linked'
    acyclic := acyclic.of_hangs fun a b hangs => by
      obtain ⟨i, j, there, rfl, rfl⟩ := hangs_iff.1 hangs
      obtain ⟨j₀, before, _, child, parent⟩ := exists_join_of_following addressed linked there
      exact hangs_iff.2 ⟨i, j₀, before, parent, child⟩ }

/-- Orders that lose the number of their customer leave the customers and their group. -/
theorem remapJoinColumns_remapped_shop : ∃ listed c',
    remapJoinColumns 2 (fun name => if name = "customer" then none else some name) shop =
        .ok listed c' ∧ c'.joins.get? 3 = none ∧ c'.hook 2 = none ∧ c'.groupOf 2 = none := by
  have wf := shop_wellFormed
  obtain ⟨listed, c', ran, remapped⟩ := remapJoinColumns_remapped wf.numbered.addressed
    wf.intact.toLinked wf.acyclic 2 fun name => if name = "customer" then none else some name
  have lost : shop.Loses 2 (fun name => if name = "customer" then none else some name) 3
      { id := 3, parent := 1, child := 2, columns := [⟨"number", "customer"⟩] } :=
    ⟨by decide +kernel, rfl, by decide +kernel⟩
  obtain ⟨gone, root, below⟩ := remapped.lost lost
  exact ⟨listed, c', ran, gone, root, below 2 .refl⟩

end Catalog

end GroupedTables
