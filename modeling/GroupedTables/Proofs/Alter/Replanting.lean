import GroupedTables.Proofs.Alter.Commit
import GroupedTables.Proofs.Catalog.Forest
import GroupedTables.Proofs.Catalog.GroupingAfresh

/-!
# Trees that are planted elsewhere

A table that is to have another parent, or none any more, takes all that is below it along. Its
definition is replaced by the one it has; that takes it out of its tree, and its joins are made
anew. What comes of it after grouping differs from what there was by the parent of the table and
by the group that its tree is in, and by the ids of the joins that were made anew.
-/

namespace GroupedTables

open GroupedTables.Action Relation
open scoped Unbounded

namespace Catalog

variable {c c' c'' : Catalog} {x k parent child : TableId} {g : GroupId} {group : Group}
  {t : Table} {columns : List JoinColumn}

/-- Joins were made at a table. Tables that are not below it then are in the groups they were in. -/
structure Grafted (x : TableId) (c c' : Catalog) : Prop extends Moved c c' where
  counter : c.nextId ≤ c'.nextId
  groups : c'.groups = c.groups
  below : ∀ ⦃k⦄, c.Below x k → c'.Below x k
  groupOf : ∀ ⦃k⦄, ¬ c'.Below x k → c'.groupOf k = c.groupOf k

namespace Grafted

theorem refl : c.Grafted x c := ⟨.refl, Nat.le_refl _, rfl, fun _ => id, fun _ _ => rfl⟩

theorem joined (h : c.Grafted x c') (numbered : c'.Numbered) (touches : parent = x ∨ child = x) :
    c.Grafted x (c'.joined parent child columns) := by
  have down : (c'.hooked parent child columns).Hangs parent child :=
    (hangs_hooked numbered).2 (.inr ⟨rfl, rfl⟩)
  have more ⦃a b : TableId⦄ (way : c'.Below a b) : (c'.joined parent child columns).Below a b :=
    ReflTransGen.mono (fun _ _ hangs => (hangs_hooked numbered).2 (.inl hangs)) _ _ way
  have inside : (c'.hooked parent child columns).Below x child := by
    obtain rfl | rfl := touches
    · exact .single down
    · exact .refl
  refine ⟨h.toMoved.joined, Nat.le_succ_of_le h.counter, h.groups, fun k way => more (h.below way),
    fun k apart => ?_⟩
  have outside : k ∉ (c'.hooked parent child columns).subtree child :=
    fun member => apart (inside.trans (mem_subtree_iff.1 member))
  calc (c'.joined parent child columns).groupOf k = (c'.hooked parent child columns).groupOf k :=
        groupOf_map tables_inGroup fun _ _ => by rw [if_neg outside]
    _ = c'.groupOf k := groupOf_hooked
    _ = c.groupOf k := h.groupOf fun way => apart (more way)

end Grafted

theorem Intact.wp_addJoin_grafted (h : c'.Intact) (grafted : c.Grafted x c')
    (touches : parent = x ∨ child = x) :
    WP (addJoin parent child columns) (fun _ c'' => c''.Intact ∧ c.Grafted x c'')
      (fun _ _ => True) c' := by
  cases above : c'.tables.get? parent with
  | none =>
    unfold addJoin
    rw [wp_bind, wp_get, wp_bind, wp_table_of_none above]
    trivial
  | some p =>
    cases below : c'.tables.get? child with
    | none =>
      unfold addJoin
      rw [wp_bind, wp_get, wp_bind, wp_lift_of_ok (table_of_get? above), wp_bind,
        wp_table_of_none below]
      trivial
    | some t =>
      refine wp_addJoin h.toNumbered h.toLinked above below (fun _ _ _ => trivial)
        fun passed acyclic => ⟨h.joined below above ?_ acyclic, grafted.joined h.toNumbered touches⟩
      exact (hook_of_get? below).trans (checkJoin_eq_ok.1 passed).1

/-- However a table is joined anew. -/
theorem Intact.wp_attachJoins_grafted (h : c.Intact) (target : Staged) :
    WP (Memory.attachJoins x target) (fun _ c' => c'.Intact ∧ c.Grafted x c') (fun _ _ => True)
      c := by
  unfold Memory.attachJoins
  rw [wp_bind]
  have first : WP (Memory.attachParent x target) (fun _ c' => c'.Intact ∧ c.Grafted x c')
      (fun _ _ => True) c := by
    unfold Memory.attachParent
    rw [wp_bind, wp_lift]
    refine ⟨fun above _ => ?_, fun _ _ => trivial⟩
    cases above with
    | none => exact ⟨h, .refl⟩
    | some j => exact (wp_discard).2 (h.wp_addJoin_grafted .refl (.inr rfl))
  apply first.mono_post
  rintro _ c' started
  refine wp_forM_mem _ started (fun _ => id) ?_
  rintro j _ c'' ⟨intact, grafted⟩
  unfold Memory.onLiveChild
  simp only [wp_bind, wp_get, wp_ite]
  exact ⟨fun _ => wp_discard.2 (intact.wp_addJoin_grafted grafted (.inl rfl)),
    fun _ => ⟨intact, grafted⟩⟩

theorem Linked.parentLink_eq_some_iff (h : c.Linked) {p : TableId} :
    c.parentLink k = some (p, columns) ↔ (k, columns) ∈ c.childLinks p := by
  rw [mem_childLinks]
  constructor
  · exact h.exists_of_parentLink
  · rintro ⟨i, j, there, rfl, rfl, rfl⟩
    exact h.parentLink_child there

theorem Linked.hangs_iff_parentLink (h : c.Linked) :
    c.Hangs parent k ↔ ∃ columns, c.parentLink k = some (parent, columns) := by
  simp only [h.parentLink_eq_some_iff, mem_childLinks, hangs_iff]
  constructor
  · rintro ⟨i, j, there, above, below⟩
    exact ⟨j.columns, i, j, there, above, below, rfl⟩
  · rintro ⟨_, i, j, there, above, below, _⟩
    exact ⟨i, j, there, above, below⟩

theorem Linked.parentLink_eq_none_iff (h : c.Linked) : c.parentLink k = none ↔ c.hook k = none := by
  rw [parentLink, Option.map_eq_none_iff, h.bind_hook_eq_none_iff]

theorem hook_ne_none_of_parentLink {link : TableId × List JoinColumn}
    (linked : c.parentLink k = some link) : c.hook k ≠ none := by
  intro off
  rw [parentLink_of_hook_none off] at linked
  cases linked

/-- The root of a tree is below no other table. -/
theorem Linked.eq_of_below (h : c.Linked) (top : c.hook k = none) (way : c.Below x k) : k = x := by
  obtain same | ⟨y, _, hangs⟩ := way.cases_tail
  · exact same
  · obtain ⟨columns, linked⟩ := h.hangs_iff_parentLink.1 hangs
    rw [h.parentLink_eq_none_iff.2 top] at linked
    cases linked

/-- A way down from a table does not come back to it, so how it hangs does not matter. -/
theorem Acyclic.below_mono (h : c.Acyclic)
    (hangs : ∀ ⦃a b⦄, b ≠ x → c.Hangs a b → c'.Hangs a b) (way : c.Below x k) : c'.Below x k := by
  induction way with
  | refl => exact .refl
  | @tail y z way last ih =>
    have other : z ≠ x := by
      rintro rfl
      exact h _ (.tail' way last)
    exact ih.tail (hangs other last)

/-- A table hangs elsewhere, or on nothing. Every other table hangs where it hung, and those that
are not below it are in the groups they were in. -/
structure Rehung (x : TableId) (c c' : Catalog) : Prop extends Moved c c' where
  counter : c.nextId ≤ c'.nextId
  groups : c'.groups = c.groups
  links : ∀ ⦃k⦄, k ≠ x → c'.parentLink k = c.parentLink k
  groupOf : ∀ ⦃k⦄, ¬ c.Below x k → c'.groupOf k = c.groupOf k

/-- The same after grouping: the other groups are those that there were, and the tree has a group
of its own if its root hangs on nothing and had none. -/
structure Replanted (x : TableId) (c c' : Catalog) : Prop extends Moved c c' where
  counter : c.nextId ≤ c'.nextId
  links : ∀ ⦃k⦄, k ≠ x → c'.parentLink k = c.parentLink k
  groupOf : ∀ ⦃k⦄, ¬ c.Below x k → c'.groupOf k = c.groupOf k
  groups : ∀ ⦃g group⦄, group.root ≠ x →
    (c'.groups.get? g = some group ↔ c.groups.get? g = some group)
  new : ∀ ⦃t⦄, c'.hook x = none → c.tables.get? x = some t →
    (∀ g group, c.groups.get? g = some group → group.root ≠ x) →
      ∃ g, c.nextId < g ∧ c'.groups.get? g = some { id := g, name := t.name.name, root := x }

section

variable (linked : c.Linked) (linked' : c'.Linked)
  (links : ∀ ⦃k⦄, k ≠ x → c'.parentLink k = c.parentLink k)

include linked linked' links

theorem hangs_iff_of_links (other : k ≠ x) : c'.Hangs parent k ↔ c.Hangs parent k := by
  rw [linked.hangs_iff_parentLink, linked'.hangs_iff_parentLink, links other]

theorem below_iff_of_links (acyclic : c.Acyclic) (acyclic' : c'.Acyclic) :
    c'.Below x k ↔ c.Below x k :=
  ⟨acyclic'.below_mono fun _ _ other => (hangs_iff_of_links linked linked' links other).1,
    acyclic.below_mono fun _ _ other => (hangs_iff_of_links linked linked' links other).2⟩

theorem hook_eq_none_iff_of_links (other : k ≠ x) : c'.hook k = none ↔ c.hook k = none := by
  rw [← linked.parentLink_eq_none_iff, ← linked'.parentLink_eq_none_iff, links other]

/-- What is not below the table is where it was, in the same tree. -/
theorem below_of_links (apart : ¬ c.Below x k) {a : TableId} (way : c.Below a k) :
    c'.Below a k := by
  induction way using ReflTransGen.head_induction_on with
  | refl => exact .refl
  | @head a b hangs rest ih =>
    have other : b ≠ x := by
      rintro rfl
      exact apart rest
    exact ih.head ((hangs_iff_of_links linked linked' links other).2 hangs)

end

namespace Grouped

/-- A tree is in one group. -/
theorem group_unique (h : c.Grouped) {g' : GroupId} {group' : Group}
    (found : c.groups.get? g = some group) (found' : c.groups.get? g' = some group')
    (same : group.root = group'.root) : g = g' ∧ group = group' := by
  have inside := (h.live found).2
  rw [same, (h.live found').2] at inside
  cases inside
  exact ⟨rfl, Option.some.inj (found.symm.trans found')⟩

/-- Every table is in the group of its tree. -/
theorem exists_group (h : c.Grouped) (linked : c.Linked) (acyclic : c.Acyclic)
    (there : ∃ t, c.tables.get? k = some t) :
    ∃ g group, c.groups.get? g = some group ∧ c.groupOf k = some g ∧ c.Below group.root k ∧
      c.hook group.root = none := by
  obtain ⟨root, ended⟩ := linked.exists_rootOf acyclic there
  obtain ⟨below, top⟩ := (linked.rootOf_eq_ok_iff there).1 ended
  obtain ⟨t, higher⟩ := linked.exists_of_above there below
  obtain ⟨g, group, found, rfl, members⟩ := h.owned higher top
  exact ⟨g, group, found, members k below, below, top⟩

end Grouped

namespace Rehung

variable (h : c.Rehung x c') (grouped : c.Grouped) (intact : c'.Intact)

include h grouped intact

/-- A group of another tree stays. -/
theorem get?_groups_regrouped (linked : c.Linked) (acyclic' : c'.Acyclic)
    (found : c.groups.get? g = some group) (other : group.root ≠ x) :
    c'.regrouped.groups.get? g = some group := by
  obtain ⟨top, inside⟩ := grouped.live found
  have apart : ¬ c.Below x group.root := fun way => other (linked.eq_of_below top way)
  have same := (h.groupOf apart).trans inside
  obtain ⟨u, there, grouped'⟩ := exists_of_groupOf same
  have top' : c'.hook group.root = none :=
    (hook_eq_none_iff_of_links linked intact.toLinked h.links other).2 top
  exact (regroups_regrouped intact.toNumbered intact.toLinked acyclic').kept there
    ((isRoot_iff_hook there).2 top') grouped' (h.groups ▸ found) rfl

/-- No other tree gets a group. -/
theorem get?_groups_of_regrouped (linked : c.Linked) (acyclic' : c'.Acyclic)
    (found : c'.regrouped.groups.get? g = some group) (other : group.root ≠ x) :
    c.groups.get? g = some group := by
  have grouped' := intact.toLinked.grouped_regrouped intact.toNumbered
  obtain ⟨top, inside⟩ := grouped'.live found
  rw [hook_regrouped, hook_eq_none_iff_of_links linked intact.toLinked h.links other] at top
  obtain ⟨u, there, _⟩ := exists_of_groupOf inside
  obtain ⟨u, there, _⟩ := exists_of_bodies
    (bodies_regrouped.trans h.bodies).symm there
  obtain ⟨g', group', found', rooted, _⟩ := grouped.owned there top
  have kept := h.get?_groups_regrouped grouped intact linked acyclic' found' (rooted ▸ other)
  obtain ⟨rfl, rfl⟩ := grouped'.group_unique kept found rooted
  exact found'

/-- What is not below the table is in the group it was in. -/
theorem groupOf_regrouped (linked : c.Linked) (acyclic : c.Acyclic) (acyclic' : c'.Acyclic)
    (apart : ¬ c.Below x k) : c'.regrouped.groupOf k = c.groupOf k := by
  cases there : c.tables.get? k with
  | none =>
    have absent : c'.regrouped.tables.get? k = none := by
      refine Option.eq_none_iff_forall_ne_some.2 fun u there' => ?_
      obtain ⟨_, found, _⟩ := exists_of_bodies (bodies_regrouped.trans h.bodies).symm there'
      cases there.symm.trans found
    rw [Catalog.groupOf, Catalog.groupOf, absent, there]
  | some t =>
    obtain ⟨g, group, found, inside, way, top⟩ := grouped.exists_group linked acyclic ⟨t, there⟩
    have other : group.root ≠ x := by
      intro same
      exact apart (same ▸ way)
    have way' : c'.regrouped.Below group.root k := by
      rw [below_congr joins_regrouped]
      exact below_of_links linked intact.toLinked h.links apart way
    have kept := h.get?_groups_regrouped grouped intact linked acyclic' found other
    have grouped' := intact.toLinked.grouped_regrouped intact.toNumbered
    calc c'.regrouped.groupOf k = c'.regrouped.groupOf group.root :=
          intact.regrouped.shared.groupOf_of_below way'
      _ = some g := (grouped'.live kept).2
      _ = c.groupOf k := inside.symm

/-- Grouping gives a group to the tree alone, if that has none. -/
theorem regrouped (linked : c.Linked) (acyclic : c.Acyclic) (acyclic' : c'.Acyclic) :
    c.Replanted x c'.regrouped where
  toMoved := h.toMoved.trans moved_regrouped
  counter := Nat.le_trans h.counter nextId_le_regrouped
  links k other := by
    rw [← h.links other, parentLink, parentLink, hook_regrouped, joins_regrouped]
  groupOf _ apart := h.groupOf_regrouped grouped intact linked acyclic acyclic' apart
  groups _ _ other :=
    ⟨fun found => h.get?_groups_of_regrouped grouped intact linked acyclic' found other,
      fun found => h.get?_groups_regrouped grouped intact linked acyclic' found other⟩
  new t top there none := by
    obtain ⟨u, there', same⟩ := exists_of_bodies h.bodies there
    rw [hook_regrouped] at top
    obtain ⟨g, above, found⟩ :=
      (regroups_regrouped intact.toNumbered intact.toLinked acyclic').new there'
        ((isRoot_iff_hook there').2 top) fun g group _ found => none g group (h.groups ▸ found)
    have name : u.name = t.name := (congrArg Table.name same :)
    exact ⟨g, Nat.lt_of_le_of_lt h.counter above, name ▸ found⟩

end Rehung

theorem below_of_detached (h : c.Linked) {y a b : TableId} (way : (c.detached y).Below a b) :
    c.Below a b := by
  refine ReflTransGen.mono (fun a b hangs => ?_) _ _ way
  obtain ⟨i, j, there, above, below⟩ := hangs_iff.1 hangs
  rw [joins_detached h, OrderedMap.get?_filter, Option.filter_eq_some_iff] at there
  exact hangs_iff.2 ⟨i, j, there.1, above, below⟩

theorem groupOf_detached_of_not_below (h : c.Linked) {y : TableId} (apart : ¬ c.Below y k) :
    (c.detached y).groupOf k = c.groupOf k := by
  cases hung : c.hook y with
  | none => rw [detached_of_root hung]
  | some i =>
    rw [groupOf_detached hung,
      if_neg fun member => apart (below_of_detached h (mem_subtree_iff.1 member))]

theorem groupOf_foldl_detached (h : c.Linked) {tables : List TableId}
    (apart : ∀ y ∈ tables, ¬ c.Below y k) : (tables.foldl detached c).groupOf k = c.groupOf k := by
  induction tables generalizing c with
  | nil => rfl
  | cons y rest ih =>
    rw [List.foldl_cons, ih h.detached fun z inside way =>
      apart z (.tail _ inside) (below_of_detached h way)]
    exact groupOf_detached_of_not_below h (apart y (.head _))

/-- Only what is below a table leaves its group when the table is taken out of its tree. -/
theorem groupOf_isolated (h : c.Linked) (apart : ¬ c.Below x k) :
    (c.isolated x).groupOf k = c.groupOf k := by
  have orphans (y : TableId) (inside : y ∈ c.children x) : ¬ c.Below y k :=
    fun way => apart (way.head (mem_children.1 inside))
  have fewer {a b : TableId} (way : ((c.children x).foldl detached c).Below a b) : c.Below a b := by
    refine ReflTransGen.mono (fun a b hangs => ?_) _ _ way
    obtain ⟨i, j, there, above, below⟩ := hangs_iff.1 hangs
    rw [joins_foldl_detached h, OrderedMap.get?_filter, Option.filter_eq_some_iff] at there
    exact hangs_iff.2 ⟨i, j, there.1, above, below⟩
  rw [isolated, groupOf_detached_of_not_below (h.foldl_detached _) fun way => apart (fewer way)]
  exact groupOf_foldl_detached h orphans

end Catalog

open Catalog Memory

variable {live c : Catalog} {current d : Table} {target : Staged}

/-- A staged table that is the live one with the children it has, and has another parent at most. -/
structure Staged.Replants (target : Staged) (live : Catalog) (current d : Table) : Prop
    extends target.Fits live current where
  planned : target.catalog.tables.get? current.id = some d
  same : d.body = current.body
  children : ∀ link, link ∈ target.catalog.childLinks current.id ↔ link ∈ live.childLinks current.id

namespace Staged.Replants

variable (found : live.tables.get? current.id = some current)

include found

/-- The table still draws from every sequence it drew from. -/
theorem sweepSequences_eq : current.sequenceIds.forM sweepSequence (live.isolated current.id) =
    .ok () (live.isolated current.id) := by
  obtain ⟨t, there, same⟩ := exists_of_bodies (bodies_isolated (x := current.id)) found
  apply eq_ok_of_wp
  refine wp_forM_mem (· = live.isolated current.id) rfl (fun _ reached => ⟨rfl, reached⟩) ?_
  rintro s inside _ rfl
  have used : (live.isolated current.id).usesSequence s = true := by
    refine usesSequence_iff.2 ⟨current.id, t, there, ?_⟩
    rw [← Table.body_sequenceIds, same]
    exact inside
  unfold sweepSequence
  simp only [wp_bind, wp_get, wp_ite, used]
  exact ⟨fun unused => absurd unused Bool.false_ne_true, fun _ => rfl⟩

variable (h : target.Replants live current d)

include h

/-- The definition is the one that is there. -/
theorem redefined_eq : live.redefined current.id d = live.isolated current.id := by
  obtain ⟨t, there, same⟩ := exists_of_bodies (bodies_isolated (x := current.id)) found
  have same := same.trans h.same.symm
  refine editing_eq_self there ?_
  have name : t.name = d.name := (congrArg Table.name same :)
  have columns : t.columns = d.columns := (congrArg Table.columns same :)
  have indexes : t.indexes = d.indexes := (congrArg Table.indexes same :)
  rw [← name, ← columns, ← indexes]

variable (wf : live.WellFormed)

include wf

/-- Every column draws from the live sequence already. -/
theorem adoptSequences_eq : adoptSequences current.id target (live.isolated current.id) =
    .ok () (live.isolated current.id) := by
  obtain ⟨t, there, same⟩ := exists_of_bodies (bodies_isolated (x := current.id)) found
  have columns : t.columns = current.columns := (congrArg Table.columns same :)
  apply eq_ok_of_wp
  unfold adoptSequences
  simp only [wp_bind, wp_get, wp_lift_of_ok (table_of_get? there), identities_congr columns]
  refine wp_forM_mem (· = live.isolated current.id) rfl (fun _ reached => ⟨trivial, reached⟩) ?_
  rintro ⟨name, s⟩ inside _ rfl
  obtain ⟨a, listed, drawn, _⟩ := mem_identities.1 inside
  have own : s ∈ current.sequenceIds := List.mem_filterMap.2 ⟨a, listed, drawn⟩
  obtain ⟨_, supplied⟩ := wf.supplied found s own
  have own' : s ∈ d.sequenceIds := by
    rw [← Table.body_sequenceIds, h.same]
    exact own
  obtain ⟨q, staged⟩ := supplied_of_valid h.valid h.planned s own'
  have same : (live.isolated current.id).sequences.get? s = some q := by
    rw [sequences_isolated]
    exact h.drafts.sourced staged (wf.numbered.sequences supplied).2
  unfold adoptSequence
  simp only [wp_bind, wp_get, wp_lift_of_ok (sequence_of_get? staged), wp_ite, wp_pure]
  exact ⟨fun _ => trivial, fun differs => absurd (beq_iff_eq.2 same) differs⟩

omit found in
/-- In what was committed every other table hangs where it hung. -/
theorem links_eq (committed : Committed live target.catalog current d current.id c)
    (other : k ≠ current.id) : c.parentLink k = live.parentLink k := by
  apply Option.ext
  rintro ⟨p, columns⟩
  rw [committed.wellFormed.intact.toLinked.parentLink_eq_some_iff,
    wf.intact.toLinked.parentLink_eq_some_iff]
  by_cases above : p = current.id
  · rw [above, committed.children]
    exact h.children _
  · simp only [mem_childLinks]
    constructor
    · rintro ⟨i, j, there, rfl, rfl, same⟩
      exact ⟨i, j, ((committed.apart i j above other).1 there).1, rfl, rfl, same⟩
    · rintro ⟨i, j, there, rfl, rfl, same⟩
      exact ⟨i, j, (committed.apart i j above other).2 ⟨there, above, other⟩, rfl, rfl, same⟩

omit found in
/-- Whatever was done to commit, the table hangs elsewhere. -/
theorem rehung (committed : Committed live target.catalog current d current.id c.regrouped)
    (intact : c.Intact) (grafted : (live.isolated current.id).Grafted current.id c) :
    live.Rehung current.id c := by
  have links ⦃k : TableId⦄ (other : k ≠ current.id) : c.parentLink k = live.parentLink k := by
    have same := h.links_eq wf committed other
    rwa [parentLink, hook_regrouped, joins_regrouped] at same
  have acyclic : c.Acyclic :=
    committed.wellFormed.acyclic.mono fun i j there => by rwa [joins_regrouped]
  have linked := wf.intact.toLinked
  refine ⟨⟨grafted.bodies.trans bodies_isolated, grafted.sequences.trans sequences_isolated⟩,
    nextId_isolated (c := live) ▸ grafted.counter, grafted.groups.trans groups_isolated, links,
    fun k apart => ?_⟩
  rw [grafted.groupOf, groupOf_isolated linked apart]
  rwa [below_iff_of_links linked intact.toLinked links wf.acyclic acyclic]

/-- To replace the definition by itself is to take the table out of its tree and to join it anew.
That is refused only if the joins of the draft do not fit. -/
theorem wp_replaceDefinition (grouped : live.Grouped) :
    WP (replaceDefinition current.id target)
      (fun _ c => Committed live target.catalog current d current.id c ∧
        Attachable live target.catalog current d ∧ live.Replanted current.id c)
      (fun _ _ => ¬ Attachable live target.catalog current d) live := by
  have isolated := h.redefined_eq found
  have placed : Placed live target.catalog current d current.id (live.redefined current.id d) :=
    wf.placed_redefined found (h.drafts.drafted h.planned)
  obtain ⟨t, itself, same⟩ := placed.itself
  have adopted := h.adoptSequences_eq found wf
  rw [← isolated] at adopted
  obtain ⟨seated, -⟩ := (placed.seated.wp_adoptSequences h.toFits h.planned itself same).ok adopted
  have unused : live.Moved (live.redefined current.id d) := by
    rw [isolated]
    exact ⟨bodies_isolated, sequences_isolated⟩
  have joined := placed.wp_join_settle h.toFits h.planned wf found seated rfl (·.move unused)
  have grafted : WP (attachJoins current.id target >>= fun _ => settle)
      (fun _ c' => ∃ c, c.Intact ∧ (live.isolated current.id).Grafted current.id c ∧
        c' = c.regrouped) (fun _ _ => True) (live.redefined current.id d) := by
    rw [isolated, wp_bind]
    apply (wf.intact.isolated.wp_attachJoins_grafted target).mono_post
    rintro _ c ⟨intact, grafted⟩
    unfold settle regroup
    simp only [wp_bind, wp_modify, wp_get, wp_lift]
    exact ⟨fun _ _ => ⟨c, intact, grafted, rfl⟩, fun _ _ => trivial⟩
  refine wp_replaceDefinition_of wf found (h.definition_eq h.planned) ?_
  rw [wp_bind, wp_of_ok adopted, wp_bind, isolated, wp_of_ok (sweepSequences_eq found), ← isolated]
  refine (joined.and grafted).mono ?_ fun _ _ failed => failed.1.2
  rintro _ _ ⟨⟨committed, fit⟩, c, intact, grafted, rfl⟩
  have acyclic : c.Acyclic :=
    committed.wellFormed.acyclic.mono fun i j there => by rwa [joins_regrouped]
  exact ⟨committed, fit, (h.rehung wf committed intact grafted).regrouped grouped intact
    wf.intact.toLinked wf.acyclic acyclic⟩

end Staged.Replants

end GroupedTables
