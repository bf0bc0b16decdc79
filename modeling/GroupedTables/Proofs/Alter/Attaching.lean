import GroupedTables.Proofs.Alter.Adoption

/-!
# Joining the table anew

A table that is seated with live sequences is joined to the parent and to the children it has in
the draft. The pairs of columns fit, because they fit in the draft. What may be wrong is their
number, which is not looked at as long as a join stays, and that a child has the parent of the
table below it. Neither depends on the id under which the table is.
-/

namespace GroupedTables

open GroupedTables.Action Catalog Memory
open scoped Unbounded

namespace Catalog

variable {c c' : Catalog} {x k parent child : TableId} {columns : List JoinColumn} {t p : Table}

/-- The parent of a table with the pairs of columns they are joined by. -/
def parentLink (c : Catalog) (x : TableId) : Option (TableId × List JoinColumn) :=
  ((c.hook x).bind c.joins.get?).map fun j => (j.parent, j.columns)

/-- The children of a table with the pairs of columns they are joined by. -/
def childLinks (c : Catalog) (x : TableId) : List (TableId × List JoinColumn) :=
  (c.childJoins x).map fun j => (j.child, j.columns)

theorem parentLink_of_hook_none (root : c.hook x = none) : c.parentLink x = none := by
  rw [parentLink, root, Option.bind_none, Option.map_none]

theorem parentLink_joined_child (below : c.tables.get? child = some t) :
    (c.joined parent child columns).parentLink child = some (parent, columns) := by
  rw [parentLink, hook_joined below, if_pos rfl, Option.bind_some, get?_joins_joined, if_pos rfl,
    Option.map_some]

theorem parentLink_joined (h : c.Intact) (below : c.tables.get? child = some t)
    (other : x ≠ child) :
    (c.joined parent child columns).parentLink x = c.parentLink x := by
  rw [parentLink, parentLink, hook_joined below, if_neg other]
  cases hung : c.hook x with
  | none => rfl
  | some i =>
    obtain ⟨j, there, _⟩ := (h.hook_iff x i).1 hung
    have old : i ≠ c.nextId + 1 := Nat.ne_of_lt (Nat.lt_succ_of_le (h.joins there).2)
    rw [Option.bind_some, Option.bind_some, get?_joins_joined, if_neg old]

theorem childLinks_joined_parent (h : c.Numbered) :
    (c.joined x child columns).childLinks x = c.childLinks x ++ [(child, columns)] := by
  rw [childLinks, childJoins, joins_joined h, List.filter_append, List.map_append]
  simp [childLinks, childJoins]

theorem childLinks_joined (h : c.Numbered) (other : parent ≠ x) :
    (c.joined parent child columns).childLinks x = c.childLinks x := by
  rw [childLinks, childJoins, joins_joined h, List.filter_append, List.map_append]
  simp [childLinks, childJoins, other]

theorem Linked.parentLink_child (h : c.Linked) {i : JoinId} {j : Join}
    (there : c.joins.get? i = some j) : c.parentLink j.child = some (j.parent, j.columns) := by
  rw [parentLink, h.hook_child there, Option.bind_some, there, Option.map_some]

theorem Linked.exists_of_parentLink (h : c.Linked)
    (linked : c.parentLink x = some (parent, columns)) :
    ∃ i j, c.joins.get? i = some j ∧ j.parent = parent ∧ j.child = x ∧ j.columns = columns := by
  obtain ⟨j, joined, same⟩ := Option.map_eq_some_iff.1 linked
  obtain ⟨i, hung, there⟩ := Option.bind_eq_some_iff.1 joined
  obtain ⟨j', there', below⟩ := (h.hook_iff x i).1 hung
  cases there.symm.trans there'
  cases same
  exact ⟨i, j, there, rfl, below, rfl⟩

theorem mem_childLinks : (child, columns) ∈ c.childLinks x ↔
    ∃ i j, c.joins.get? i = some j ∧ j.parent = x ∧ j.child = child ∧ j.columns = columns := by
  simp only [childLinks, List.mem_map, mem_childJoins, OrderedMap.mem_values_iff, Prod.mk.injEq]
  constructor
  · rintro ⟨j, ⟨⟨i, there⟩, above⟩, below, same⟩
    exact ⟨i, j, there, above, below, same⟩
  · rintro ⟨i, j, there, above, below, same⟩
    exact ⟨j, ⟨⟨i, there⟩, above⟩, below, same⟩

theorem not_mem_subtree_of_bare (bare : c.childLinks x = []) (other : k ≠ x) : k ∉ c.subtree x := by
  rw [mem_subtree_iff]
  intro way
  obtain same | ⟨y, hangs, _⟩ := way.cases_head
  · exact other same.symm
  · obtain ⟨i, j, there, above, below⟩ := hangs_iff.1 hangs
    have inside := mem_childLinks.2 ⟨i, j, there, above, below, rfl⟩
    rw [bare] at inside
    cases inside

theorem hangs_isolated (h : c.Intact) {a b : TableId} :
    (c.isolated x).Hangs a b ↔ c.Hangs a b ∧ a ≠ x ∧ b ≠ x := by
  simp only [hangs_iff, joins_isolated h.toLinked, OrderedMap.get?_filter,
    Option.filter_eq_some_iff, Bool.and_eq_true, bne_iff_ne]
  constructor
  · rintro ⟨i, j, ⟨there, far, far'⟩, rfl, rfl⟩
    exact ⟨⟨i, j, there, rfl, rfl⟩, far, far'⟩
  · rintro ⟨⟨i, j, there, rfl, rfl⟩, far, far'⟩
    exact ⟨i, j, ⟨there, far, far'⟩, rfl, rfl⟩

end Catalog

variable {live staged c c' : Catalog} {current d t u : Table} {target : Staged} {x k : TableId}
  {parent child : TableId} {columns : List JoinColumn}

/-- The join to the parent has as many pairs as it has to have. -/
def ParentFits (live staged : Catalog) (current : Table) : Prop :=
  ∀ ⦃p columns l⦄, staged.parentLink current.id = some (p, columns) →
    live.tables.get? p = some l → Wide l columns

/-- The join to a child has as many pairs as it has to have, and the parent is not below it. -/
def ChildFits (live staged : Catalog) (current d : Table) (link : TableId × List JoinColumn) :
    Prop :=
  Wide d link.2 ∧ ∀ ⦃p columns⦄, staged.parentLink current.id = some (p, columns) →
    ¬ (live.isolated current.id).Below link.1 p

/-- The joins of a draft can be made. -/
structure Attachable (live staged : Catalog) (current d : Table) : Prop where
  parent : ParentFits live staged current
  children : ∀ link ∈ staged.childLinks current.id, ChildFits live staged current d link

namespace Seated

/-- Moving tables about keeps a table seated, if joins that do not touch it stay. -/
theorem move (h : Seated live staged current d x [] c) (intact : c'.Intact)
    (acyclic : c'.Acyclic) (le : c.nextId ≤ c'.nextId)
    (bodies : c'.bodies = c.bodies) (sequences : c'.sequences = c.sequences)
    (apart : ∀ i j, j.parent ≠ x → j.child ≠ x →
      (c'.joins.get? i = some j ↔ c.joins.get? i = some j)) :
    Seated live staged current d x [] c' := by
  obtain ⟨t, there, name, indexes, columns⟩ := h.itself
  obtain ⟨u, there', same⟩ := exists_of_bodies bodies there
  have name' := congrArg Table.name same
  have indexes' := congrArg Table.indexes same
  have columns' := congrArg Table.columns same
  simp only [Table.body_name, Table.body_indexes, Table.body_columns] at name' indexes' columns'
  refine ⟨intact, acyclic, Nat.le_trans h.counter le,
    ⟨u, there', name'.trans name, indexes'.trans indexes, ?_⟩, ?_, ?_, ?_,
    h.tended.move bodies sequences⟩
  · rw [columns']
    exact columns.imp fun a b adopting => adopting.mono fun s q _ kept => sequences ▸ kept
  · exact bodies ▸ h.others
  · exact fun i j above below => (apart i j above below).trans (h.apart i j above below)
  · intro k u other there'' s drawn
    obtain ⟨v, found, same⟩ := exists_of_bodies bodies.symm there''
    rw [← Table.body_sequenceIds, ← same] at drawn
    rw [sequences]
    exact h.supply k v other found s drawn

/-- A join that touches the table, with both ends in the catalog. -/
theorem join (h : Seated live staged current d x [] c) {parent child : TableId} {p u : Table}
    (above : c.tables.get? parent = some p) (below : c.tables.get? child = some u)
    (touches : parent = x ∨ child = x) (off : c.hook child = none)
    (acyclic : parent ∉ c.subtree child) :
    Seated live staged current d x [] (c.joined parent child columns) := by
  refine h.move (h.intact.joined below above off acyclic)
    (h.acyclic.joined h.intact.toNumbered acyclic) (Nat.le_succ _) bodies_joined sequences_joined
    fun i j far far' => ?_
  rw [get?_joins_joined]
  split
  case isTrue new =>
    rw [new, h.intact.joins.fresh (Nat.lt_succ_self _)]
    refine iff_of_false ?_ nofun
    rintro ⟨⟩
    exact touches.elim far far'
  case isFalse => rfl

/-- A table that is live and not the altered one is in the catalog. -/
theorem exists_of_live (h : Seated live staged current d x [] c) {l : Table}
    (there : live.tables.get? k = some l) (other : k ≠ current.id) :
    ∃ t, c.tables.get? k = some t := by
  by_cases same : k = x
  · obtain ⟨t, there', _⟩ := h.itself
    exact ⟨t, same ▸ there'⟩
  · have body := h.others k same
    rw [if_neg other] at body
    obtain ⟨t, there', _⟩ := get?_bodies_eq_some.1
      (body.trans (get?_bodies_eq_some.2 ⟨l, there, rfl⟩))
    exact ⟨t, there'⟩

theorem typeOf?_itself (h : Seated live staged current d x [] c) (there : c.tables.get? x = some t)
    (name : String) : t.typeOf? name = d.typeOf? name := by
  obtain ⟨t', there', _, _, columns⟩ := h.itself
  cases there.symm.trans there'
  exact typeOf?_of_adopting columns name

theorem indexes_itself (h : Seated live staged current d x [] c)
    (there : c.tables.get? x = some t) : t.indexes = d.indexes := by
  obtain ⟨t', there', _, indexes, _⟩ := h.itself
  cases there.symm.trans there'
  exact indexes

/-- A table of the draft that is not the altered one is in the catalog as it is in the draft. -/
theorem body_eq (h : Seated live target.catalog current d x [] c) (fits : target.Fits live current)
    (planned : target.catalog.tables.get? k = some u) (other : k ≠ current.id) (apart : k ≠ x)
    (there : c.tables.get? k = some t) : t.body = u.body := by
  obtain ⟨l, listed, same⟩ := fits.drafts.others planned other
  have body := h.others k apart
  rw [if_neg other, get?_bodies, there, get?_bodies, listed] at body
  exact (Option.some.inj body).trans same

/-- The pairs of a join of the draft fit in the catalog. -/
theorem checkPair_eq_ok (h : Seated live target.catalog current d x [] c)
    (fits : target.Fits live current) (planned : target.catalog.tables.get? current.id = some d)
    {i : JoinId} {j : Join} (there : target.catalog.joins.get? i = some j)
    (above : c.tables.get? (if j.parent = current.id then x else j.parent) = some t)
    (below : c.tables.get? (if j.child = current.id then x else j.child) = some u)
    (apart : j.parent ≠ x ∨ j.parent = current.id) (apart' : j.child ≠ x ∨ j.child = current.id) :
    ∀ pair ∈ j.columns, checkPair t u pair = .ok () := by
  have linked := fits.drafts.intact.toLinked
  obtain ⟨p, above'⟩ := linked.parent there
  obtain ⟨v, below', _⟩ := linked.child there
  have types ⦃k : TableId⦄ ⦃a b : Table⦄ (staged : target.catalog.tables.get? k = some b)
      (live : c.tables.get? (if k = current.id then x else k) = some a)
      (apart : k ≠ x ∨ k = current.id) (name : String) : a.typeOf? name = b.typeOf? name := by
    by_cases same : k = current.id
    · rw [if_pos same] at live
      rw [same, planned] at staged
      cases staged
      exact h.typeOf?_itself live name
    · rw [if_neg same] at live
      have body := h.body_eq fits staged same (apart.resolve_right same) live
      rw [← Table.body_typeOf?, body, Table.body_typeOf?]
  intro pair inside
  have passed := Catalog.checkPair_eq_ok.1
    (paired_of_valid fits.valid there above' below' pair inside)
  rw [← types above' above apart, ← types below' below apart'] at passed
  exact Catalog.checkPair_eq_ok.2 passed

variable (wf : live.WellFormed) (new : x = current.id ∨ live.tables.get? x = none)

include wf new

/-- Away from the table, joins are as they are in the live catalog without it. -/
theorem hangs_iff (h : Seated live staged current d x [] c) {a b : TableId} :
    (live.isolated current.id).Hangs a b ↔ c.Hangs a b ∧ a ≠ x ∧ b ≠ x := by
  rw [hangs_isolated wf.intact, Catalog.hangs_iff, Catalog.hangs_iff]
  constructor
  · rintro ⟨⟨i, j, there, rfl, rfl⟩, far, far'⟩
    have apart ⦃k : TableId⦄ (other : k ≠ current.id) (listed : ∃ t, live.tables.get? k = some t) :
        k ≠ x := by
      rintro rfl
      obtain same | absent := new
      · exact other same
      · simp [absent] at listed
    obtain ⟨t, below, _⟩ := wf.intact.toLinked.child there
    have above := apart far (wf.intact.parent there)
    have below := apart far' ⟨t, below⟩
    exact ⟨⟨i, j, (h.apart i j above below).2 ⟨there, far, far'⟩, rfl, rfl⟩, above, below⟩
  · rintro ⟨⟨i, j, there, rfl, rfl⟩, above, below⟩
    obtain ⟨there, far, far'⟩ := (h.apart i j above below).1 there
    exact ⟨⟨i, j, there, rfl, rfl⟩, far, far'⟩

/-- The table is below another one just if its parent is, in the live catalog without it. -/
theorem below_iff (h : Seated live staged current d x [] c) (other : k ≠ x) :
    c.Below k x ↔ ∃ p columns, c.parentLink x = some (p, columns) ∧
      (live.isolated current.id).Below k p := by
  constructor
  · intro way
    obtain same | ⟨y, way, last⟩ := way.cases_tail
    · exact absurd same.symm other
    obtain ⟨i, j, there, above, below⟩ := Catalog.hangs_iff.1 last
    have link := h.intact.toLinked.parentLink_child there
    rw [above, below] at link
    refine ⟨y, j.columns, link, ?_⟩
    -- a way that came through the table would close a circle
    have apart ⦃a : TableId⦄ (down : c.Below a y) : a ≠ x := by
      rintro rfl
      exact h.acyclic a (.tail' down last)
    induction way using Relation.ReflTransGen.head_induction_on with
    | refl => exact .refl
    | head hangs rest ih =>
      refine .head ((h.hangs_iff wf new).2 ⟨hangs, apart (rest.head hangs), apart rest⟩) ?_
      exact ih (apart rest) (rest.tail last)
  · rintro ⟨p, columns, linked, way⟩
    obtain ⟨i, j, there, rfl, rfl, _⟩ := h.intact.toLinked.exists_of_parentLink linked
    refine .tail (Relation.ReflTransGen.mono (fun a b hangs => ?_) _ _ way)
      (Catalog.hangs_iff.2 ⟨i, j, there, rfl, rfl⟩)
    exact ((h.hangs_iff wf new).1 hangs).1

omit wf in
/-- The table joined to its parent, unless there is a wrong number of pairs. -/
theorem wp_attachParent (h : Seated live target.catalog current d x [] c)
    (fits : target.Fits live current) (planned : target.catalog.tables.get? current.id = some d)
    (root : c.hook x = none) (bare : c.childLinks x = []) :
    WP (attachParent x target)
      (fun _ c' => (Seated live target.catalog current d x [] c' ∧
        c'.parentLink x = target.catalog.parentLink current.id ∧ c'.childLinks x = [] ∧
        (∀ k, k ≠ x → c'.hook k = c.hook k) ∧ c.Moved c') ∧ ParentFits live target.catalog current)
      (fun f _ => f.Foreseen ∧ ¬ ParentFits live target.catalog current) c := by
  have linked := fits.drafts.intact.toLinked
  unfold attachParent
  rw [fits.table, linked.parentJoin_eq ⟨d, planned⟩, wp_bind, wp_lift_of_ok rfl]
  cases joined : (target.catalog.hook current.id).bind target.catalog.joins.get? with
  | none =>
    have unjoined : target.catalog.parentLink current.id = none := by
      rw [parentLink, joined, Option.map_none]
    refine ⟨⟨h, ?_, bare, fun _ _ => rfl, .refl⟩, fun p columns l named => ?_⟩
    · rw [parentLink_of_hook_none root, unjoined]
    · rw [unjoined] at named
      cases named
  | some j =>
    obtain ⟨i, hung, there⟩ := Option.bind_eq_some_iff.1 joined
    obtain ⟨j', there', below⟩ := (linked.hook_iff _ _).1 hung
    cases there.symm.trans there'
    have link : target.catalog.parentLink current.id = some (j.parent, j.columns) := by
      rw [parentLink, joined, Option.map_some]
    have other : j.parent ≠ current.id := below ▸ fits.acyclic.parent_ne_child there
    obtain ⟨p, above⟩ := linked.parent there
    obtain ⟨l, listed, same⟩ := fits.drafts.others above other
    have apart : j.parent ≠ x := by
      rintro rfl
      obtain same | absent := new
      · exact other same
      · rw [absent] at listed
        cases listed
    obtain ⟨p', above'⟩ := h.exists_of_live listed other
    obtain ⟨t, there'', _⟩ := h.itself
    have indexes : p'.indexes = l.indexes :=
      (congrArg Table.indexes ((h.body_eq fits above other apart above').trans same.symm) :)
    have pairs := h.checkPair_eq_ok fits planned there (by rwa [if_neg other])
      (by rwa [if_pos below]) (.inl apart) (.inr below)
    rw [wp_discard]
    refine wp_addJoin h.intact.toNumbered h.intact.toLinked above' there''
      (fun f foreseen refused => ⟨foreseen, fun wide => refused ⟨?_, ?_⟩⟩)
      fun passed acyclic =>
        ⟨⟨h.join above' there'' (.inr rfl) root acyclic, ?_, ?_, ?_, Moved.refl.joined⟩, ?_⟩
    · exact checkJoin_eq_ok.2 ⟨(hook_of_get? there'').symm.trans root,
        (wide_congr indexes).2 (wide link listed), pairs⟩
    · exact not_mem_subtree_of_bare bare apart
    · rw [parentLink_joined_child there'', link]
    · rw [childLinks_joined h.intact.toNumbered apart, bare]
    · exact fun k far => (hook_joined there'').trans (if_neg far)
    · intro q columns l' named listed'
      cases link.symm.trans named
      cases listed.symm.trans listed'
      exact (wide_congr indexes).1 (checkJoin_eq_ok.1 passed).2.1

/-- A staged child of the table is another live table. -/
theorem child_of_staged (fits : target.Fits live current) {j : Join}
    (listed : j ∈ target.catalog.childJoins current.id) :
    j.child ≠ current.id ∧ j.child ≠ x ∧ ∃ u, live.tables.get? j.child = some u := by
  obtain ⟨listed, above⟩ := mem_childJoins.1 listed
  have there := fits.drafts.intact.toNumbered.get?_join_of_mem listed
  have other : j.child ≠ current.id := above ▸ (fits.acyclic.parent_ne_child there).symm
  obtain ⟨l, there', _, same⟩ := fits.drafts.children there above
  obtain ⟨u, below, _⟩ := wf.intact.toLinked.child there'
  rw [same] at below
  refine ⟨other, ?_, u, below⟩
  rintro rfl
  obtain same | absent := new
  · exact other same
  · rw [absent] at below
    cases below

omit wf new in
/-- No table is listed twice among the staged children. -/
theorem nodup_children (h : target.catalog.Intact) (k : TableId) :
    ((target.catalog.childJoins k).map (·.child)).Nodup := by
  apply ((OrderedMap.Keyed.nodup_numbers h.joins).of_map.filter _).map_on
  intro j inside j' inside' same
  have there := h.toNumbered.get?_join_of_mem (List.mem_filter.1 inside).1
  have there' := h.toNumbered.get?_join_of_mem (List.mem_filter.1 inside').1
  exact (h.toLinked.join_unique there there' same).2

end Seated

/-- How far the staged children of a table have been joined to it. -/
structure Attaching (live staged : Catalog) (current d : Table) (x : TableId) (before : Catalog)
    (rest : List Join) (c : Catalog) : Prop where
  seated : Seated live staged current d x [] c
  moved : before.Moved c
  parent : c.parentLink x = staged.parentLink current.id
  children : c.childLinks x ++ rest.map (fun j => (j.child, j.columns)) =
    staged.childLinks current.id
  fit : ∀ link ∈ c.childLinks x, ChildFits live staged current d link
  /-- The children still to come are joined to nothing. -/
  waiting : ∀ j ∈ rest, j ∈ staged.childJoins current.id ∧ c.hook j.child = none
  once : (rest.map (·.child)).Nodup

/-- The next child is joined to the table just if it fits. -/
theorem Attaching.wp_step {before : Catalog} {j : Join} {rest : List Join}
    {fails : Fault → Catalog → Prop}
    (h : Attaching live target.catalog current d x before (j :: rest) c)
    (fits : target.Fits live current) (planned : target.catalog.tables.get? current.id = some d)
    (wf : live.WellFormed) (new : x = current.id ∨ live.tables.get? x = none)
    (unfit : ∀ f, f.Foreseen → ¬ ChildFits live target.catalog current d (j.child, j.columns) →
      fails f c) :
    WP (onLiveChild j (discard (addJoin x j.child j.columns)))
      (fun _ c' => Attaching live target.catalog current d x before rest c') fails c := by
  obtain ⟨listed, off⟩ := h.waiting j (.head _)
  obtain ⟨fresh, once⟩ := List.nodup_cons.1 h.once
  obtain ⟨other, apart, u, below⟩ := Seated.child_of_staged wf new fits listed
  obtain ⟨listed, above⟩ := mem_childJoins.1 listed
  have there := fits.drafts.intact.toNumbered.get?_join_of_mem listed
  obtain ⟨u', below'⟩ := h.seated.exists_of_live below other
  obtain ⟨t, itself, _, indexes, _⟩ := h.seated.itself
  have pairs := h.seated.checkPair_eq_ok fits planned there (by rwa [if_pos above])
    (by rwa [if_neg other]) (.inr above) (.inl apart)
  have circle : x ∈ c.subtree j.child ↔ ∃ p columns,
      target.catalog.parentLink current.id = some (p, columns) ∧
        (live.isolated current.id).Below j.child p := by
    rw [mem_subtree_iff, h.seated.below_iff wf new apart, h.parent]
  unfold onLiveChild
  simp only [wp_bind, wp_get, wp_ite]
  refine ⟨fun _ => ?_, fun absent => absurd (OrderedMap.contains_of_get? below') absent⟩
  rw [wp_discard]
  refine wp_addJoin h.seated.intact.toNumbered h.seated.intact.toLinked itself below'
    (fun f foreseen refused => unfit f foreseen fun all => refused ⟨?_, ?_⟩)
    fun passed acyclic => ⟨h.seated.join itself below' (.inl rfl) off acyclic, h.moved.joined,
      ?_, ?_, ?_, fun j' inside => ⟨(h.waiting j' (.tail _ inside)).1, ?_⟩, once⟩
  · exact checkJoin_eq_ok.2 ⟨(hook_of_get? below').symm.trans off,
      (wide_congr indexes).2 all.1, pairs⟩
  · rintro inside
    obtain ⟨p, columns, link, way⟩ := circle.1 inside
    exact all.2 link way
  · rw [parentLink_joined h.seated.intact below' apart.symm, h.parent]
  · rw [childLinks_joined_parent h.seated.intact.toNumbered, List.append_assoc]
    exact h.children
  · rw [childLinks_joined_parent h.seated.intact.toNumbered]
    intro link inside
    obtain inside | inside := List.mem_append.1 inside
    · exact h.fit link inside
    · obtain rfl := List.mem_singleton.1 inside
      exact ⟨(wide_congr indexes).1 (checkJoin_eq_ok.1 passed).2.1,
        fun p columns link way => acyclic (circle.2 ⟨p, columns, link, way⟩)⟩
  · rw [hook_joined below', if_neg]
    · exact (h.waiting j' (.tail _ inside)).2
    · exact fun same => fresh (List.mem_map.2 ⟨j', inside, same⟩)

namespace Seated

variable (wf : live.WellFormed) (new : x = current.id ∨ live.tables.get? x = none)

include wf new

/-- The children joined to the table, one after the other, unless there is one that does not
fit. -/
theorem wp_attachChildren (h : Seated live target.catalog current d x [] c)
    (fits : target.Fits live current) (planned : target.catalog.tables.get? current.id = some d)
    (parent : c.parentLink x = target.catalog.parentLink current.id) (bare : c.childLinks x = [])
    (free : ∀ j ∈ target.catalog.childJoins current.id, c.hook j.child = none) :
    WP ((target.catalog.childJoins target.table).forM fun j =>
        onLiveChild j (discard (addJoin x j.child j.columns)))
      (fun _ c' => (Seated live target.catalog current d x [] c' ∧
        c'.parentLink x = target.catalog.parentLink current.id ∧
        c'.childLinks x = target.catalog.childLinks current.id ∧ c.Moved c') ∧
        ∀ link ∈ target.catalog.childLinks current.id,
          ChildFits live target.catalog current d link)
      (fun f _ => f.Foreseen ∧ ¬ ∀ link ∈ target.catalog.childLinks current.id,
        ChildFits live target.catalog current d link) c := by
  rw [fits.table]
  refine wp_forM (Attaching live target.catalog current d x c)
    ⟨h, .refl, parent, by rw [bare]; rfl, by rw [bare]; nofun,
      fun j inside => ⟨inside, free j inside⟩, nodup_children fits.drafts.intact current.id⟩
    (fun c' ended => ?_) fun j rest c' attaching => ?_
  · have children : c'.childLinks x = target.catalog.childLinks current.id := by
      simpa using ended.children
    exact ⟨⟨ended.seated, ended.parent, children, ended.moved⟩, children ▸ ended.fit⟩
  · refine attaching.wp_step fits planned wf new fun f foreseen unfit =>
      ⟨foreseen, fun all => unfit (all _ ?_)⟩
    rw [← attaching.children]
    exact List.mem_append_right _ (.head _)

/-- The table joined as it is in the draft, just if all joins fit. -/
theorem wp_attachJoins (h : Seated live target.catalog current d x [] c)
    (fits : target.Fits live current) (planned : target.catalog.tables.get? current.id = some d)
    (root : c.hook x = none) (bare : c.childLinks x = [])
    (free : ∀ j ∈ target.catalog.childJoins current.id, j.child ≠ x ∧ c.hook j.child = none) :
    WP (attachJoins x target)
      (fun _ c' => (Seated live target.catalog current d x [] c' ∧
        c'.parentLink x = target.catalog.parentLink current.id ∧
        c'.childLinks x = target.catalog.childLinks current.id ∧ c.Moved c') ∧
        Attachable live target.catalog current d)
      (fun f _ => f.Foreseen ∧ ¬ Attachable live target.catalog current d) c := by
  unfold attachJoins
  rw [wp_bind]
  refine (h.wp_attachParent new fits planned root bare).mono ?_
    fun f _ ⟨foreseen, narrow⟩ => ⟨foreseen, fun all => narrow all.parent⟩
  rintro _ c' ⟨⟨seated, parent, bare, hooks, moved⟩, above⟩
  refine (seated.wp_attachChildren wf new fits planned parent bare fun j inside => ?_).mono ?_
    fun f _ ⟨foreseen, unfit⟩ => ⟨foreseen, fun all => unfit all.children⟩
  · obtain ⟨apart, off⟩ := free j inside
    exact (hooks _ apart).trans off
  · exact fun _ c'' ⟨⟨seated, parent, children, moved'⟩, below⟩ =>
      ⟨⟨seated, parent, children, moved.trans moved'⟩, above, below⟩

end Seated

end GroupedTables
