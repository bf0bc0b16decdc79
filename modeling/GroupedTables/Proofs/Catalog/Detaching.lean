import GroupedTables.Proofs.Catalog.Edits

/-!
# Taking tables off their parents

A table that comes off its parent loses the join it hung on and leaves its group with all
below it. An intact catalog stays intact, and nothing else is changed, so taking off several
tables comes down to a filter of the joins.
-/

namespace GroupedTables.Catalog

open GroupedTables.Action

variable {c : Catalog} {i k x parent child : Nat} {j : Join} {t : Table}

/-- The catalog with a table taken off the join it hangs on. The groups are as they were. -/
def unhooked (c : Catalog) (x : TableId) (i : JoinId) : Catalog :=
  { c.editing x ({ · with parentJoin := none }) with joins := c.joins.erase i }

/-- The catalog with a table taken off its parent and out of its group. -/
def detached (c : Catalog) (x : TableId) : Catalog :=
  match c.hook x with
  | none => c
  | some i => (c.unhooked x i).inGroup ((c.unhooked x i).subtree x) none

theorem detached_of_root (root : c.hook x = none) : c.detached x = c := by rw [detached, root]

theorem detached_of_hook (hung : c.hook x = some i) :
    c.detached x = (c.unhooked x i).inGroup ((c.unhooked x i).subtree x) none := by
  rw [detached, hung]

theorem hook_unhooked : (c.unhooked x i).hook k = if k = x then none else c.hook k := by
  unfold hook unhooked
  rw [get?_editing]
  by_cases same : k = x
  · rw [if_pos same, if_pos same]
    cases c.tables.get? k <;> rfl
  · rw [if_neg same, if_neg same]

theorem tables_unhooked : (c.unhooked x i).tables =
    c.tables.map fun k t => if k = x then { t with parentJoin := none } else t := rfl

theorem exists_unhooked_iff :
    (∃ t, (c.unhooked x i).tables.get? k = some t) ↔ ∃ t, c.tables.get? k = some t :=
  exists_editing_iff

theorem Linked.unhooked (h : c.Linked) (hung : c.hook x = some i) : (c.unhooked x i).Linked where
  parent _ _ there := by
    rw [Catalog.unhooked, OrderedMap.get?_erase] at there
    split at there
    · cases there
    · exact exists_unhooked_iff.2 (h.parent there)
  hook_iff k i' := by
    rw [hook_unhooked, Catalog.unhooked, OrderedMap.get?_erase]
    by_cases same : i' = i
    · subst same
      refine iff_of_false (fun hooked => ?_) (by simp)
      split at hooked
      · cases hooked
      case isFalse other =>
        obtain ⟨j, there, rfl⟩ := (h.hook_iff _ _).1 hooked
        obtain ⟨j', there', rfl⟩ := (h.hook_iff _ _).1 hung
        rw [there] at there'
        exact other (by rw [Option.some.inj there'])
    · rw [if_neg same, ← h.hook_iff]
      by_cases here : k = x
      · rw [if_pos here, here, hung]
        exact iff_of_false nofun fun eq => same (Option.some.inj eq).symm
      · rw [if_neg here]

theorem clearParentJoin_eq (h : c.Linked) (there : c.tables.get? x = some t) :
    clearParentJoin x c = .ok ((c.hook x).bind c.joins.get?) (c.detached x) := by
  apply eq_ok_of_wp
  unfold clearParentJoin
  simp only [wp_bind, wp_get, wp_lift_of_ok (table_of_get? there)]
  cases hung : c.hook x with
  | none =>
    rw [hook_of_get? there] at hung
    simp only [hung, wp_pure]
    exact ⟨rfl, (detached_of_root ((hook_of_get? there).trans hung)).symm⟩
  | some i =>
    have off := h.unhooked hung
    have all : ∀ k ∈ (c.unhooked x i).subtree x, ∃ t, (c.unhooked x i).tables.get? k = some t :=
      fun k => off.exists_of_mem_subtree (exists_unhooked_iff.2 ⟨t, there⟩)
    rw [detached_of_hook hung]
    rw [hook_of_get? there] at hung
    simp only [hung, wp_bind, wp_of_ok (editTable_eq there), wp_get, wp_modify]
    exact (wp_of_ok (assignGroup_eq all)).2 ⟨rfl, rfl⟩

@[simp] theorem bodies_detached : (c.detached x).bodies = c.bodies := by
  unfold detached
  split
  · rfl
  · rw [bodies_inGroup]
    exact bodies_editing_of_same fun _ => rfl

@[simp] theorem sequences_detached : (c.detached x).sequences = c.sequences := by
  unfold detached
  split <;> rfl

@[simp] theorem groups_detached : (c.detached x).groups = c.groups := by
  unfold detached
  split <;> rfl

@[simp] theorem nextId_detached : (c.detached x).nextId = c.nextId := by
  unfold detached
  split <;> rfl

/-- What is gone is the join the table hung on. -/
theorem joins_detached (h : c.Linked) :
    (c.detached x).joins = c.joins.filter fun _ j => j.child != x := by
  cases hung : c.hook x with
  | none =>
    rw [detached_of_root hung]
    refine (OrderedMap.filter_eq_self fun i j there => ?_).symm
    simpa using h.no_join_of_hook hung there
  | some i =>
    obtain ⟨j, there, child⟩ := (h.hook_iff _ _).1 hung
    rw [detached_of_hook hung]
    change c.joins.erase i = _
    apply OrderedMap.filter_congr
    intro i' j' there'
    by_cases same : j'.child = x
    · simp [same, (h.join_unique there there' (child.trans same.symm)).1]
    · have other : i' ≠ i := by
        rintro rfl
        rw [there] at there'
        exact same (Option.some.inj there' ▸ child)
      rw [bne_iff_ne.2 other, bne_iff_ne.2 same]

theorem hook_detached : (c.detached x).hook k = if k = x then none else c.hook k := by
  cases hung : c.hook x with
  | none =>
    rw [detached_of_root hung]
    split
    · rwa [‹k = x›]
    · rfl
  | some i => rw [detached_of_hook hung, hook_inGroup, hook_unhooked]

/-- A table that comes off its parent leaves its group with all below it. -/
theorem groupOf_detached (hung : c.hook x = some i) :
    (c.detached x).groupOf k = if k ∈ (c.detached x).subtree x then none else c.groupOf k := by
  have members : (c.detached x).subtree x = (c.unhooked x i).subtree x :=
    subtree_congr (by rw [detached_of_hook hung, joins_inGroup])
  have before : (c.unhooked x i).groupOf k = c.groupOf k :=
    groupOf_map tables_unhooked fun t _ => by split <;> rfl
  rw [members, detached_of_hook hung, ← before]
  cases there : (c.unhooked x i).tables.get? k with
  | some t => exact groupOf_inGroup ⟨t, there⟩
  | none =>
    rw [groupOf, groupOf, inGroup, OrderedMap.get?_map, there]
    split <;> rfl

theorem Linked.detached (h : c.Linked) : (c.detached x).Linked := by
  cases hung : c.hook x with
  | none => rwa [detached_of_root hung]
  | some i =>
    rw [detached_of_hook hung]
    exact (h.unhooked hung).inGroup

theorem Intact.detached (h : c.Intact) : (c.detached x).Intact := by
  cases hung : c.hook x with
  | none => rwa [detached_of_root hung]
  | some i =>
    have off := h.toLinked.unhooked hung
    have free : (c.unhooked x i).hook x = none := by rw [hook_unhooked, if_pos rfl]
    have numbered : (c.unhooked x i).Numbered :=
      { h.toNumbered.editing (f := ({ · with parentJoin := none })) fun _ => rfl with
        joins := h.joins.erase }
    rw [detached_of_hook hung]
    refine { numbered.inGroup, off.inGroup with
      shared := off.shared_inGroup
        (fun _ _ there same => absurd same (off.no_join_of_hook free there)) ?_ }
    intro i' j there _ _
    have groups (k : TableId) : (c.unhooked x i).groupOf k = c.groupOf k :=
      groupOf_map tables_unhooked fun t _ => by split <;> rfl
    rw [Catalog.unhooked, OrderedMap.get?_erase] at there
    split at there
    · cases there
    · rw [groups, groups]
      exact h.shared there

/-- What each of some changes leaves alone, all of them leave alone. -/
theorem foldl_keeps {α β : Type} {change : Catalog → β → Catalog} (read : Catalog → α)
    (same : ∀ c b, read (change c b) = read c) (items : List β) :
    read (items.foldl change c) = read c := by
  induction items generalizing c with
  | nil => rfl
  | cons b rest ih => rw [List.foldl_cons, ih, same]

theorem Linked.foldl_detached (h : c.Linked) (tables : List TableId) :
    (tables.foldl Catalog.detached c).Linked := by
  induction tables generalizing c with
  | nil => exact h
  | cons x rest ih => exact ih h.detached

theorem Intact.foldl_detached (h : c.Intact) (tables : List TableId) :
    (tables.foldl Catalog.detached c).Intact := by
  induction tables generalizing c with
  | nil => exact h
  | cons x rest ih => exact ih h.detached

theorem joins_foldl_detached (h : c.Linked) (tables : List TableId) :
    (tables.foldl detached c).joins = c.joins.filter fun _ j => !tables.contains j.child := by
  induction tables generalizing c with
  | nil => exact (OrderedMap.filter_eq_self fun _ _ _ => rfl).symm
  | cons x rest ih =>
    rw [List.foldl_cons, ih h.detached, joins_detached h, OrderedMap.filter_filter]
    apply OrderedMap.filter_congr
    intro i j _
    by_cases same : j.child = x <;> simp [same]

/-- Takes tables off their parents one after the other. -/
theorem wp_clearParentJoins {tables : List TableId} (h : c.Linked)
    (there : ∀ k ∈ tables, ∃ t, c.tables.get? k = some t) :
    WP (tables.forM fun k => discard (clearParentJoin k))
      (fun _ c' => c' = tables.foldl detached c) (fun _ _ => False) c := by
  induction tables generalizing c with
  | nil => rfl
  | cons x rest ih =>
    obtain ⟨t, found⟩ := there x (.head _)
    rw [List.forM, wp_bind, wp_discard, wp_of_ok (clearParentJoin_eq h found)]
    apply ih h.detached
    intro k inside
    obtain ⟨u, there'⟩ := there k (.tail _ inside)
    obtain ⟨u', there', _⟩ := exists_of_bodies (bodies_detached (x := x)) there'
    exact ⟨u', there'⟩

/-- The catalog with a table taken off its parent and its children taken off it. -/
def isolated (c : Catalog) (x : TableId) : Catalog := ((c.children x).foldl detached c).detached x

@[simp] theorem bodies_isolated : (c.isolated x).bodies = c.bodies := by
  rw [isolated, bodies_detached, foldl_keeps bodies fun _ _ => bodies_detached]

@[simp] theorem sequences_isolated : (c.isolated x).sequences = c.sequences := by
  rw [isolated, sequences_detached, foldl_keeps sequences fun _ _ => sequences_detached]

@[simp] theorem groups_isolated : (c.isolated x).groups = c.groups := by
  rw [isolated, groups_detached, foldl_keeps groups fun _ _ => groups_detached]

@[simp] theorem nextId_isolated : (c.isolated x).nextId = c.nextId := by
  rw [isolated, nextId_detached, foldl_keeps nextId fun _ _ => nextId_detached]

theorem Intact.isolated (h : c.Intact) : (c.isolated x).Intact := (h.foldl_detached _).detached

/-- What is gone are the joins that touched the table. -/
theorem joins_isolated (h : c.Linked) :
    (c.isolated x).joins = c.joins.filter fun _ j => j.parent != x && j.child != x := by
  rw [isolated, joins_detached (h.foldl_detached _), joins_foldl_detached h,
    OrderedMap.filter_filter]
  apply OrderedMap.filter_congr
  intro i j there
  have below : j.child ∈ c.children x ↔ j.parent = x := by
    rw [mem_children]
    refine ⟨?_, fun above => ⟨j, OrderedMap.mem_values there, above, rfl⟩⟩
    rintro ⟨j', listed, above, same⟩
    obtain ⟨i', there'⟩ := OrderedMap.mem_values_iff.1 listed
    rw [(h.join_unique there there' same.symm).2]
    exact above
  by_cases above : j.parent = x
  · simp [below.2 above, above]
  · simp [mt below.1 above, bne_iff_ne.2 above]

/-- The children of a table exist. -/
theorem Linked.exists_child (h : c.Linked) (below : k ∈ c.children x) :
    ∃ t, c.tables.get? k = some t := by
  obtain ⟨j, listed, _, rfl⟩ := mem_children.1 below
  obtain ⟨i, there⟩ := OrderedMap.mem_values_iff.1 listed
  obtain ⟨t, found, _⟩ := h.child there
  exact ⟨t, found⟩

end GroupedTables.Catalog
