import GroupedTables.Proofs.Alter.Placing
import GroupedTables.Proofs.Alter.Statements

/-!
# Taking a table back out of a group

A table that is joined under another one takes its tree into the group of that. Dropping it from
the group takes the tree out again, and what is left then is the catalog there was: the joins that
were made anew have other ids, and the tree has another group of its own. This does not depend on
what the tree looks like or where the parent is, nor on sequences that several columns draw from.
-/

namespace GroupedTables

open GroupedTables.Action Catalog Memory

variable {p : Planner Memory} {config : Config} {m : Memory} {current d t : Table} {k : Context}

section

open scoped Unbounded

namespace Catalog

variable {c c' c'' : Catalog} {p : Table} {k : TableId} {former shared latter : GroupId}
  {columns : List JoinColumn}

/-- The tree of a table was taken into the group of another table. -/
structure Absorbed (c : Catalog) (t above : Table) (former shared : GroupId) (c' : Catalog) :
    Prop where
  leaves : t.group = some former
  enters : above.group = some shared
  hangs : c'.Hangs above.id t.id
  members : ∀ k ∈ c.subtree t.id, c'.groupOf k = some shared
  /-- Every other table is in the group it was in. -/
  others : ∀ k, k ∉ c.subtree t.id → c'.groupOf k = c.groupOf k
  /-- The group the tree was in is gone, and any other one is what it was. -/
  groups : ∀ g, c'.groups.get? g = if g = former then none else c.groups.get? g

/-- A catalog is the one there was but for its counter, the ids of joins, the order of joins and of
groups, and the id and the name of the group of one tree. -/
structure Restored (c : Catalog) (t : Table) (renumber : JoinId → JoinId) (former latter : GroupId)
    (c' : Catalog) : Prop where
  tables : c'.tables = c.tables.map fun _ u => { u with
    parentJoin := u.parentJoin.map renumber
    group := u.group.map fun g => if g = former then latter else g }
  joins : ∀ i j, c'.joins.get? i = some j ↔
    ∃ i₀ j₀, c.joins.get? i₀ = some j₀ ∧ renumber i₀ = i ∧ j = { j₀ with id := i }
  distinct : ∀ i ∈ c.joins.keys, ∀ i' ∈ c.joins.keys, renumber i = renumber i' → i = i'
  sequences : c'.sequences = c.sequences
  /-- The tree was and is in a group with its root, and the group it is in is new. -/
  rooted : ∃ group, c.groups.get? former = some group ∧ group.root = t.id
  fresh : c.groups.get? latter = none
  groups : ∀ g, c'.groups.get? g =
    if g = latter then some { id := latter, name := t.name.name, root := t.id }
    else if g = former then none else c.groups.get? g

/-- The id that a join has in another catalog in which tables hang alike: that of the join by which
its child hangs there. -/
def renumbering (c c' : Catalog) (i : JoinId) : JoinId :=
  ((c.joins.get? i).bind fun j => c'.hook j.child).getD i

theorem renumbering_eq {i i' : JoinId} {j : Join} (there : c.joins.get? i = some j)
    (hung : c'.hook j.child = some i') : c.renumbering c' i = i' := by
  rw [renumbering, there, Option.bind_some, hung, Option.getD_some]

section

variable (wf : c.WellFormed) (wf' : c'.WellFormed) (links : ∀ k, c'.parentLink k = c.parentLink k)

include wf wf' links

/-- A join is there under its other id. -/
theorem get?_joins_renumbering {i : JoinId} {j : Join} (there : c.joins.get? i = some j) :
    c'.hook j.child = some (c.renumbering c' i) ∧
      c'.joins.get? (c.renumbering c' i) = some { j with id := c.renumbering c' i } := by
  have link := wf.intact.toLinked.parentLink_child there
  rw [← links] at link
  obtain ⟨i', j', there', above, below, same⟩ := wf'.intact.toLinked.exists_of_parentLink link
  have hung : c'.hook j.child = some i' := below ▸ wf'.intact.toLinked.hook_child there'
  rw [renumbering_eq there hung]
  refine ⟨hung, there'.trans (congrArg some ?_)⟩
  rw [← (wf'.numbered.joins there').1, ← above, ← below, ← same]

theorem hook_eq_renumbering : c'.hook k = (c.hook k).map (c.renumbering c') := by
  cases hung : c.hook k with
  | none =>
    rw [Option.map_none, ← wf'.intact.toLinked.parentLink_eq_none_iff, links,
      wf.intact.toLinked.parentLink_eq_none_iff, hung]
  | some i =>
    obtain ⟨j, there, rfl⟩ := (wf.intact.toLinked.hook_iff k i).1 hung
    exact (get?_joins_renumbering wf wf' links there).1

/-- There are no other joins. -/
theorem get?_joins_iff_renumbering {i : JoinId} {j : Join} : c'.joins.get? i = some j ↔
    ∃ i₀ j₀, c.joins.get? i₀ = some j₀ ∧ c.renumbering c' i₀ = i ∧ j = { j₀ with id := i } := by
  constructor
  · intro there
    have link := wf'.intact.toLinked.parentLink_child there
    rw [links] at link
    obtain ⟨i₀, j₀, there₀, above, below, same⟩ := wf.intact.toLinked.exists_of_parentLink link
    have hung : c'.hook j₀.child = some i := below ▸ wf'.intact.toLinked.hook_child there
    refine ⟨i₀, j₀, there₀, renumbering_eq there₀ hung, ?_⟩
    rw [← (wf'.numbered.joins there).1, above, below, same]
  · rintro ⟨i₀, j₀, there, rfl, rfl⟩
    exact (get?_joins_renumbering wf wf' links there).2

/-- No two joins get one id. -/
theorem renumbering_inj {i i' : JoinId} (inside : i ∈ c.joins.keys) (inside' : i' ∈ c.joins.keys)
    (same : c.renumbering c' i = c.renumbering c' i') : i = i' := by
  obtain ⟨j, there⟩ := OrderedMap.mem_keys_iff.1 inside
  obtain ⟨j', there'⟩ := OrderedMap.mem_keys_iff.1 inside'
  have joined := (get?_joins_renumbering wf wf' links there).2
  rw [same, (get?_joins_renumbering wf wf' links there').2] at joined
  have child : j'.child = j.child := (congrArg Join.child (Option.some.inj joined) :)
  exact (wf.intact.toLinked.join_unique there there' child.symm).1

end

namespace Grouped

/-- A table that hangs on another one is the root of no group. -/
theorem root_ne (h : c.Grouped) {x : TableId} {g : GroupId} {group : Group}
    (hung : c.hook x ≠ none) (found : c.groups.get? g = some group) : group.root ≠ x :=
  fun same => hung (same ▸ (h.live found).1)

/-- What is below no root of a group is not in the group. -/
theorem groupOf_ne (h : c.Grouped) (linked : c.Linked) (acyclic : c.Acyclic) {g : GroupId}
    {group : Group} (found : c.groups.get? g = some group) (apart : ¬ c.Below group.root k) :
    c.groupOf k ≠ some g := by
  intro inside
  obtain ⟨t, there, _⟩ := exists_of_groupOf inside
  obtain ⟨g', group', found', inside', way, _⟩ := h.exists_group linked acyclic ⟨t, there⟩
  cases inside.symm.trans inside'
  cases found.symm.trans found'
  exact apart way

end Grouped

/-- A root that is joined under another table takes its tree into the group of that. -/
theorem Replanted.absorbed (h : c.Replanted t.id c') (wf : c.WellFormed) (grouped : c.Grouped)
    (wf' : c'.WellFormed) (grouped' : c'.Grouped) (there : c.tables.get? t.id = some t)
    (top : t.parentJoin = none) (above : c.tables.get? p.id = some p)
    (link : c'.parentLink t.id = some (p.id, columns)) :
    ∃ former shared, c.Absorbed t p former shared c' := by
  have linked := wf.intact.toLinked
  have linked' := wf'.intact.toLinked
  have below {k : TableId} : c'.Below t.id k ↔ c.Below t.id k :=
    below_iff_of_links linked linked' h.links wf.acyclic wf'.acyclic
  obtain ⟨former, group, found, rooted, members⟩ :=
    grouped.owned there ((hook_of_get? there).trans top)
  have hangs : c'.Hangs p.id t.id := linked'.hangs_iff_parentLink.2 ⟨columns, link⟩
  have hung : c'.hook t.id ≠ none := hook_ne_none_of_parentLink link
  have apart : ¬ c.Below t.id p.id := fun way => wf'.acyclic _ (.tail' (below.2 way) hangs)
  obtain ⟨shared, _, _, inside, _⟩ := grouped.exists_group linked wf.acyclic ⟨p, above⟩
  refine ⟨former, shared, (groupOf_of_get? there).symm.trans (members _ .refl),
    (groupOf_of_get? above).symm.trans inside, hangs, fun k member => ?_,
    fun k outside => h.groupOf (mt mem_subtree_iff.2 outside), fun g => ?_⟩
  · have way : c'.Below p.id k := .head hangs (below.2 (mem_subtree_iff.1 member))
    rw [wf'.intact.shared.groupOf_of_below way, h.groupOf apart, inside]
  · apply Option.ext
    intro group'
    by_cases same : g = former
    · rw [if_pos same]
      refine iff_of_false (fun kept => ?_) nofun
      have old := (h.groups (grouped'.root_ne hung kept)).1 kept
      rw [same, found] at old
      cases old
      exact grouped'.root_ne hung kept rooted
    · rw [if_neg same]
      by_cases root : group'.root = t.id
      · exact iff_of_false (fun kept => grouped'.root_ne hung kept root) fun old =>
          same (grouped.group_unique old found (root.trans rooted.symm)).1
      · exact h.groups root

/-- A table that is the root of no group and comes to hang on nothing gets one group, and no other
group is changed. -/
theorem Replanted.exists_groups {x : TableId} (h : c.Replanted x c') (grouped' : c'.Grouped)
    (there : c.tables.get? x = some t) (off : c'.hook x = none)
    (rootless : ∀ g group, c.groups.get? g = some group → group.root ≠ x) :
    ∃ latter, c.nextId < latter ∧ ∀ g, c'.groups.get? g =
      if g = latter then some { id := latter, name := t.name.name, root := x }
      else c.groups.get? g := by
  obtain ⟨latter, new, found⟩ := h.new off there rootless
  refine ⟨latter, new, fun g => ?_⟩
  by_cases same : g = latter
  · rw [if_pos same, same, found]
  · rw [if_neg same]
    apply Option.ext
    intro group
    by_cases root : group.root = x
    · exact iff_of_false (fun kept => same (grouped'.group_unique kept found root).1)
        fun old => rootless g group old root
    · exact h.groups root

/-- A table is its body with its place. -/
theorem tables_eq_map {f : JoinId → JoinId} {h : GroupId → GroupId} (bodies : c'.bodies = c.bodies)
    (hook : ∀ k, c'.hook k = (c.hook k).map f)
    (groupOf : ∀ k, c'.groupOf k = (c.groupOf k).map h) :
    c'.tables = c.tables.map fun _ u => { u with
      parentJoin := u.parentJoin.map f, group := u.group.map h } := by
  apply OrderedMap.ext_get?
  · have keys := congrArg OrderedMap.keys bodies
    rw [Catalog.bodies, Catalog.bodies, OrderedMap.keys_map, OrderedMap.keys_map] at keys
    rw [OrderedMap.keys_map, keys]
  · intro k
    rw [OrderedMap.get?_map]
    cases there : c.tables.get? k with
    | none =>
      refine Option.eq_none_iff_forall_ne_some.2 fun u there' => ?_
      obtain ⟨_, found, _⟩ := exists_of_bodies bodies.symm there'
      cases there.symm.trans found
    | some u =>
      obtain ⟨u', there', body⟩ := exists_of_bodies bodies there
      have parentJoin : u'.parentJoin = u.parentJoin.map f := by
        rw [← hook_of_get? there', hook, hook_of_get? there]
      have group : u'.group = u.group.map h := by
        rw [← groupOf_of_get? there', groupOf, groupOf_of_get? there]
      have placed : { u'.body with parentJoin := u'.parentJoin, group := u'.group } =
          { u.body with parentJoin := u.parentJoin.map f, group := u.group.map h } := by
        rw [body, parentJoin, group]
      exact there'.trans (congrArg some placed)

section

variable {x : TableId} (h : c.Replanted x c') (h' : c'.Replanted x c'') (wf : c.WellFormed)
  (wf' : c'.WellFormed) (wf'' : c''.WellFormed)

include h h'

/-- If the table hangs where it hung, every table does. -/
theorem Replanted.links_back (back : c''.parentLink x = c.parentLink x) (k : TableId) :
    c''.parentLink k = c.parentLink k := by
  by_cases same : k = x
  · rw [same, back]
  · exact (h'.links same).trans (h.links same)

include wf wf' wf''

/-- If the tree was in a group with its root and is in another one, no other table changes its
group. -/
theorem Replanted.groupOf_back (grouped : c.Grouped) {group : Group}
    (found : c.groups.get? former = some group) (rooted : group.root = x)
    (regrouped : c''.groupOf x = some latter) (k : TableId) :
    c''.groupOf k = (c.groupOf k).map fun g => if g = former then latter else g := by
  have linked' := wf'.intact.toLinked
  have below : c'.Below x k ↔ c.Below x k :=
    below_iff_of_links wf.intact.toLinked linked' h.links wf.acyclic wf'.acyclic
  by_cases way : c.Below x k
  · have way' : c''.Below x k :=
      (below_iff_of_links linked' wf''.intact.toLinked h'.links wf'.acyclic wf''.acyclic).2
        (below.2 way)
    have inside : c.groupOf k = some former := by
      rw [wf.intact.shared.groupOf_of_below way, ← rooted]
      exact (grouped.live found).2
    rw [wf''.intact.shared.groupOf_of_below way', regrouped, inside, Option.map_some, if_pos rfl]
  · rw [h'.groupOf (mt below.1 way), h.groupOf way]
    have outside : c.groupOf k ≠ some former :=
      grouped.groupOf_ne wf.intact.toLinked wf.acyclic found (rooted ▸ way)
    cases inside : c.groupOf k with
    | none => rfl
    | some g =>
      have other : g ≠ former := fun same => outside (same ▸ inside)
      rw [Option.map_some, if_neg other]

end

/-- A tree that was taken into a group and comes out of it again is where it was. -/
theorem Replanted.restored (h : c.Replanted t.id c') (h' : c'.Replanted t.id c'')
    (absorbed : c.Absorbed t p former shared c') (wf : c.WellFormed) (grouped : c.Grouped)
    (wf' : c'.WellFormed) (grouped' : c'.Grouped) (wf'' : c''.WellFormed)
    (grouped'' : c''.Grouped) (there : c.tables.get? t.id = some t) (top : t.parentJoin = none)
    (hung : c'.hook t.id ≠ none) (off : c''.hook t.id = none) :
    ∃ renumber latter, c.Restored t renumber former latter c'' := by
  have off' : c.hook t.id = none := (hook_of_get? there).trans top
  have links := h.links_back h' <|
    (parentLink_of_hook_none off).trans (parentLink_of_hook_none off').symm
  obtain ⟨g, group, found, rooted, members⟩ := grouped.owned there off'
  obtain rfl : g = former := Option.some.inj <|
    (members _ .refl).symm.trans ((groupOf_of_get? there).trans absorbed.leaves)
  obtain ⟨t', there', same⟩ := exists_of_bodies h.bodies there
  have name : t'.name = t.name := (congrArg Table.name same :)
  obtain ⟨latter, new, groups⟩ :=
    h'.exists_groups grouped'' there' off fun _ _ => grouped'.root_ne hung
  have regrouped : c''.groupOf t.id = some latter :=
    (grouped''.live ((groups latter).trans (if_pos rfl))).2
  have moved := h.toMoved.trans h'.toMoved
  refine ⟨c.renumbering c'', latter, tables_eq_map moved.bodies
      (fun _ => hook_eq_renumbering wf wf'' links)
      (h.groupOf_back h' wf wf' wf'' grouped found rooted regrouped),
    fun _ _ => get?_joins_iff_renumbering wf wf'' links,
    fun _ inside _ inside' => renumbering_inj wf wf'' links inside inside', moved.sequences,
    ⟨group, found, rooted⟩, ?_, fun g' => ?_⟩
  · exact wf.numbered.groups.fresh (Nat.lt_of_le_of_lt h.counter new)
  · rw [groups, absorbed.groups, name]

end Catalog

/-- A table was given another parent, or none. The joins of its children are of the width that its
primary key asks for. -/
structure Catalog.Transplanted (t : Table) (c c' : Catalog) : Prop extends c.Replanted t.id c' where
  wellFormed : c'.WellFormed
  grouped : c'.Grouped
  wide : ∀ link ∈ c'.childLinks t.id, Wide t link.2

/-- The table is found under its name, and is what it was but for its place. -/
theorem Catalog.Transplanted.exists_table {c c' : Catalog} (h : c.Transplanted t c')
    (found : c.tables.get? t.id = some t) :
    ∃ u, c'.tableNamed t.name = .ok u ∧ c'.tables.get? t.id = some u ∧ u.body = t.body := by
  obtain ⟨u, found', same⟩ := exists_of_bodies h.bodies found
  have id : u.id = t.id := (congrArg Table.id same :)
  have name : u.name = t.name := (congrArg Table.name same :)
  exact ⟨u, name ▸ h.wellFormed.tableNamed_eq (id ▸ found'), found', same⟩

theorem Staged.Replants.transplanted {target : Staged} {c c' : Catalog}
    (h : target.Replants c current d)
    (committed : Committed c target.catalog current d current.id c')
    (fit : Attachable c target.catalog current d) (replanted : c.Replanted current.id c') :
    c.Transplanted current c' := by
  refine ⟨replanted, committed.wellFormed, committed.grouped, fun link inside => ?_⟩
  rw [committed.children] at inside
  exact (wide_congr_of_body h.same).1 (fit.children link inside).1

/-- In place, a table that is to have another parent is given it, unless the statement is cancelled
or the joins of the draft do not fit. -/
theorem Memory.wp_alterTable_moving {copier : Copier Memory} (inPlace : config.strategy = .inPlace)
    (wf : m.catalog.WellFormed) (grouped : m.catalog.Grouped)
    (found : m.catalog.tables.get? current.id = some current) {plan : Planner.Plan}
    (h : plan.Moves m.catalog current d) :
    WP (alterTable config copier current.name plan.staged plan.columnChanges plan.indexChanges)
      (fun level r => level = .table ∧ m.catalog.Transplanted current r.state.catalog ∧
        r.state.catalog.parentLink current.id = plan.staged.catalog.parentLink current.id)
      (fun _ _ => k.cancelledFrom = none → ¬ Attachable m.catalog plan.staged.catalog current d)
      ⟨m, k⟩ := by
  have watched : WP Context.checkCancelled (fun _ _ => True) (fun _ _ => k.cancelledFrom ≠ none)
      k := by
    by_cases alive : k.cancelledFrom = none
    · exact Context.wp_checkCancelled_of alive fun _ _ => trivial
    · exact Context.wp_checkCancelled (fun _ _ _ => alive) fun _ => trivial
  unfold alterTable
  rw [wp_bind, wp_get, wp_bind, wp_lift_of_ok (wf.tableNamed_eq found), wp_bind,
    wp_lift_of_ok h.cost, wp_bind]
  refine wp_within.2 (watched.mono (fun _ _ _ => ?_) fun _ _ stopped alive => absurd alive stopped)
  unfold Run.onState edit record
  rw [inPlace, wp_bind, wp_within, if_neg (by simp), wp_bind, wp_within, wp_allOrNothing]
  refine (h.wp_replaceDefinition found wf grouped).mono ?_ fun _ _ unfit _ => unfit
  rintro _ c ⟨committed, fit, replanted⟩
  exact ⟨rfl, h.transplanted committed fit replanted, committed.parent⟩

namespace Planner

/-- A statement about a group is planned and carried out. -/
theorem wp_alterGroup_of {s : AlterGroup} {e : Edits} {post : Level → Run Memory → Prop}
    {fails : Fault → Run Memory → Prop} (numbered : m.catalog.Numbered)
    (route : ∀ t, Route.ofElements t s.elements = .ok (.edit e))
    (unknown : ∀ f, m.catalog.tableNamed (s.table.resolve p.schema) = .error f → fails f ⟨m, k⟩)
    (planned : ∀ current, m.catalog.tableNamed (s.table.resolve p.schema) = .ok current →
      m.catalog.tables.get? current.id = some current →
      WP (p.plan m.catalog current.id current e)
        (fun plan k' => WP (Memory.alterTable config copyRows current.name plan.staged
          plan.columnChanges plan.indexChanges) post fails ⟨m, k'⟩)
        (fun f k' => fails f ⟨m, k'⟩) k) :
    WP ((p.over config).alterGroup s) post fails ⟨m, k⟩ := by
  unfold alterGroup
  rw [wp_bind, wp_get, wp_bind, wp_lift]
  refine ⟨fun current named => ?_, unknown⟩
  obtain ⟨found, _⟩ := numbered.get?_of_tableNamed? (tableNamed_eq_ok_iff.1 named)
  show WP ((p.over config).alterWhole m.catalog current.id s.alterTable s.elements) _ _ _
  unfold alterWhole alterElements
  rw [wp_bind, wp_bind, wp_lift_of_ok (table_of_get? found), wp_bind, wp_lift_of_ok (route current)]
  simp only [plan_over]
  rw [wp_bind]
  refine wp_within.2 ((planned current named found).mono_post fun plan k' carried => ?_)
  exact (wp_bind _ _).2 carried

section

variable (inPlace : config.strategy = .inPlace) (wf : m.catalog.WellFormed)
  (grouped : m.catalog.Grouped)

include inPlace wf grouped

/-- A table that was added to a group hangs on the parent, and hung on nothing before. -/
theorem wp_addTable {child parent : QualifiedName} {columns parentColumns : List String}
    (full : ∀ t ∈ m.catalog.tables.values, t.FullyIndexed) :
    WP ((p.over config).alterGroup (.addTable child columns parent parentColumns))
      (fun level r => level = .table ∧ ∃ t above columns,
        m.catalog.tableNamed (child.resolve p.schema) = .ok t ∧
        m.catalog.tableNamed (parent.resolve p.schema) = .ok above ∧
        t.NamedApart ∧ t.parentJoin = none ∧ m.catalog.Transplanted t r.state.catalog ∧
        r.state.catalog.parentLink t.id = some (above.id, columns))
      (fun _ _ => True) ⟨m, k⟩ := by
  refine wp_alterGroup_of wf.numbered (fun _ => rfl) (fun _ _ => trivial)
    fun t named found => ?_
  refine (p.wp_plan_joining wf found (full t (OrderedMap.mem_values found)) _ k).mono ?_
    fun _ _ _ => trivial
  rintro plan k' ⟨apart, top, above, d, columns, named', moves, link⟩
  refine (Memory.wp_alterTable_moving inPlace wf grouped found moves).mono ?_ fun _ _ _ => trivial
  rintro level r ⟨rfl, transplanted, same⟩
  exact ⟨rfl, t, above, columns, named, named', apart, top, transplanted, same.trans link⟩

/-- A table that hangs on a parent can be dropped from its group, if the joins of its children fit
it, and hangs on nothing then. -/
theorem wp_dropTable {child : QualifiedName} (alive : k.cancelledFrom = none)
    (named : m.catalog.tableNamed (child.resolve p.schema) = .ok t) (full : t.FullyIndexed)
    (apart : t.NamedApart) (hung : t.parentJoin ≠ none)
    (wide : ∀ link ∈ m.catalog.childLinks t.id, Wide t link.2) :
    WP ((p.over config).alterGroup (.dropTable child))
      (fun level r => level = .table ∧ m.catalog.Transplanted t r.state.catalog ∧
        r.state.catalog.hook t.id = none)
      (fun _ _ => False) ⟨m, k⟩ := by
  refine wp_alterGroup_of wf.numbered (fun _ => rfl) (fun f failed => ?_)
    fun t' named' found => ?_
  · cases named.symm.trans failed
  cases named.symm.trans named'
  refine (p.wp_plan_parting wf found full apart hung alive).mono_post ?_
  rintro plan k' ⟨alive', ⟨d, moves⟩, parted⟩
  refine (Memory.wp_alterTable_moving inPlace wf grouped found moves).mono ?_
    fun _ _ unfit => unfit alive' ⟨fun _ _ _ link => ?_, fun link inside => ⟨?_, fun _ _ up => ?_⟩⟩
  · rintro level r ⟨rfl, transplanted, same⟩
    refine ⟨rfl, transplanted, ?_⟩
    rw [← transplanted.wellFormed.intact.toLinked.parentLink_eq_none_iff, same, parted]
  · cases parted.symm.trans link
  · exact (wide_congr_of_body moves.same).2 (wide link ((moves.children link).1 inside))
  · cases parted.symm.trans up

end

end Planner

end

namespace Planner

/-- The customers of the shop, and orders with their items before they were joined to customers. -/
def formerMarket : Catalog where
  tables := .ofList [(1, customers), (2, { orders with parentJoin := none, group := some 8 }),
    (6, { orders with id := 6, name := ⟨"shop", "item"⟩, parentJoin := some 7, group := some 8 })]
  joins := .ofList [(7, { id := 7, parent := 2, child := 6, columns := [⟨"number", "customer"⟩] })]
  groups := .ofList [(4, { id := 4, name := "customer", root := 1 }),
    (8, { id := 8, name := "order", root := 2 })]
  sequences := shop.sequences
  nextId := 8

/-- Orders that are not joined to customers, and items that nothing joins. The last id was given
away, and the first one but one is that of the group of the items. -/
def exhaustedOrders : Catalog where
  tables := .ofList [(1, customers), (2, { orders with parentJoin := none, group := some 8 }),
    (6, { orders with id := 6, name := ⟨"shop", "item"⟩, parentJoin := none, group := some 1 })]
  groups := .ofList [(4, { id := 4, name := "customer", root := 1 }),
    (8, { id := 8, name := "order", root := 2 }), (1, { id := 1, name := "item", root := 6 })]
  sequences := shop.sequences
  nextId := Word.bound - 1

end Planner

end GroupedTables
