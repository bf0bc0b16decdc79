import GroupedTables.Proofs.Catalog.Tables

/-!
# Grouping afresh

Grouping a catalog afresh changes which groups there are and which tables are in them, and
nothing else. A catalog that is grouped already stays as it is, whatever its counter says:
no root asks for a new group then.
-/

namespace GroupedTables.Catalog

open scoped Unbounded

variable {c : Catalog} {k root : TableId} {n : Nat}

theorem groupTree_eq :
    c.groupTree root = (c.ensureGroup root).2.inGroup ((c.ensureGroup root).2.subtree root)
      (some (c.ensureGroup root).1) := by
  simp only [groupTree, inGroup, foldl_modify_group]

@[simp] theorem tables_ensureGroup : (c.ensureGroup root).2.tables = c.tables := by
  unfold ensureGroup
  split <;> rfl

@[simp] theorem joins_ensureGroup : (c.ensureGroup root).2.joins = c.joins := by
  unfold ensureGroup
  split <;> rfl

@[simp] theorem sequences_ensureGroup : (c.ensureGroup root).2.sequences = c.sequences := by
  unfold ensureGroup
  split <;> rfl

/-- Either the root has a group of its own, or the counter goes up. -/
theorem nextId_ensureGroup :
    (c.ensureGroup root).2.nextId = c.nextId + if (c.ownGroup? root).isSome then 0 else 1 := by
  unfold ensureGroup
  split
  case h_1 own => simp [own]
  case h_2 own => simp [own]

theorem Numbered.ensureGroup (h : c.Numbered) : (c.ensureGroup root).2.Numbered := by
  unfold Catalog.ensureGroup
  split
  · exact h
  · exact ⟨h.tables.mono (Nat.le_succ _), h.joins.mono (Nat.le_succ _),
      (h.groups.mono (Nat.le_succ _)).insert rfl (Nat.le_refl _), h.sequences.mono (Nat.le_succ _)⟩

theorem Intact.ensureGroup (h : c.Intact) : (c.ensureGroup root).2.Intact := by
  have hooks (k : TableId) : (c.ensureGroup root).2.hook k = c.hook k := by
    rw [hook, tables_ensureGroup, hook]
  have groups (k : TableId) : (c.ensureGroup root).2.groupOf k = c.groupOf k := by
    rw [groupOf, tables_ensureGroup, groupOf]
  refine { h.toNumbered.ensureGroup with hook_iff := ?_, parent := ?_, shared := ?_ }
  · intro k i
    rw [hooks, joins_ensureGroup]
    exact h.hook_iff k i
  · intro i j there
    rw [tables_ensureGroup]
    exact h.parent (joins_ensureGroup ▸ there)
  · intro i j there
    rw [groups, groups]
    exact h.shared (joins_ensureGroup ▸ there)

@[simp] theorem bodies_groupTree : (c.groupTree root).bodies = c.bodies := by
  rw [groupTree_eq, bodies_inGroup, bodies, tables_ensureGroup, bodies]

@[simp] theorem joins_groupTree : (c.groupTree root).joins = c.joins := by
  rw [groupTree_eq, joins_inGroup, joins_ensureGroup]

@[simp] theorem sequences_groupTree : (c.groupTree root).sequences = c.sequences := by
  rw [groupTree_eq, sequences_inGroup, sequences_ensureGroup]

@[simp] theorem hook_groupTree : (c.groupTree root).hook k = c.hook k := by
  rw [groupTree_eq, hook_inGroup, hook, tables_ensureGroup, hook]

theorem nextId_groupTree :
    (c.groupTree root).nextId = c.nextId + if (c.ownGroup? root).isSome then 0 else 1 := by
  rw [groupTree_eq, nextId_inGroup, nextId_ensureGroup]

theorem Intact.groupTree (h : c.Intact) (off : c.hook root = none) : (c.groupTree root).Intact := by
  have h' : (c.ensureGroup root).2.Intact := h.ensureGroup
  have off' : (c.ensureGroup root).2.hook root = none := by rwa [hook, tables_ensureGroup]
  rw [groupTree_eq]
  refine { h'.toNumbered.inGroup, h'.toLinked.inGroup with
    shared := h'.toLinked.shared_inGroup ?_ fun i j there _ _ => h'.shared there }
  intro i j there same
  exact absurd same (h'.toLinked.no_join_of_hook off' there)

def roots (c : Catalog) : List TableId := (c.tables.values.filter (·.isRoot)).map (·.id)

theorem regrouped_eq : c.regrouped = { c.roots.foldl groupTree c with
    groups := (c.roots.foldl groupTree c).groups.filter (c.roots.foldl groupTree c).isLiveGroup } :=
  rfl

theorem hook_of_mem_roots (h : c.Numbered) (inside : root ∈ c.roots) : c.hook root = none := by
  obtain ⟨t, listed, rfl⟩ := List.mem_map.1 inside
  obtain ⟨listed, top⟩ := List.mem_filter.1 listed
  rw [hook_of_get? (h.get?_of_mem listed)]
  simpa [Table.isRoot] using top

@[simp] theorem bodies_regrouped : c.regrouped.bodies = c.bodies :=
  foldl_keeps bodies (fun _ _ => bodies_groupTree) _

@[simp] theorem joins_regrouped : c.regrouped.joins = c.joins :=
  foldl_keeps joins (fun _ _ => joins_groupTree) _

@[simp] theorem sequences_regrouped : c.regrouped.sequences = c.sequences :=
  foldl_keeps sequences (fun _ _ => sequences_groupTree) _

@[simp] theorem hook_regrouped : c.regrouped.hook k = c.hook k :=
  foldl_keeps (hook · k) (fun _ _ => hook_groupTree) _

theorem nextId_le_foldl_groupTree (roots : List TableId) :
    c.nextId ≤ (roots.foldl groupTree c).nextId := by
  induction roots generalizing c with
  | nil => exact Nat.le_refl _
  | cons root rest ih =>
    refine Nat.le_trans ?_ ih
    rw [nextId_groupTree]
    exact Nat.le_add_right ..

theorem nextId_le_regrouped : c.nextId ≤ c.regrouped.nextId := nextId_le_foldl_groupTree _

theorem Intact.regrouped (h : c.Intact) : c.regrouped.Intact := by
  have loop (roots : List TableId) (c : Catalog) (h : c.Intact)
      (off : ∀ root ∈ roots, c.hook root = none) : (roots.foldl Catalog.groupTree c).Intact := by
    induction roots generalizing c with
    | nil => exact h
    | cons root rest ih =>
      apply ih _ (h.groupTree (off root (.head _)))
      intro k inside
      rw [hook_groupTree]
      exact off k (.tail _ inside)
  have h' := loop c.roots c h fun root => hook_of_mem_roots h.toNumbered
  rw [regrouped_eq]
  exact { h' with
    groups := h'.groups.filter _
    hook_iff := h'.hook_iff
    parent := h'.parent
    shared := h'.shared }

theorem groupTree_withCounter (same : (c.groupTree root).nextId = c.nextId) :
    { c with nextId := n }.groupTree root = { c.groupTree root with nextId := n } := by
  rw [nextId_groupTree] at same
  have own : (c.ownGroup? root).isSome := by
    cases grouped : c.ownGroup? root with
    | some id => rfl
    | none => simp [grouped] at same
  obtain ⟨id, own⟩ := Option.isSome_iff_exists.1 own
  have own' : ({ c with nextId := n } : Catalog).ownGroup? root = some id := own
  have members : ({ c with nextId := n } : Catalog).subtree root = c.subtree root :=
    subtree_congr rfl
  simp only [groupTree, ensureGroup, own, own', members]

theorem foldl_groupTree_withCounter (roots : List TableId)
    (same : (roots.foldl groupTree c).nextId = c.nextId) :
    roots.foldl groupTree { c with nextId := n } =
      { roots.foldl groupTree c with nextId := n } := by
  induction roots generalizing c with
  | nil => rfl
  | cons root rest ih =>
    rw [List.foldl_cons] at same
    have first : c.nextId ≤ (c.groupTree root).nextId := by rw [nextId_groupTree]; omega
    have others := nextId_le_foldl_groupTree (c := c.groupTree root) rest
    rw [List.foldl_cons, groupTree_withCounter (by omega), ih (by omega), List.foldl_cons]

/-- A grouped catalog is left as it is, with any counter. -/
theorem regrouped_withCounter (h : c.regrouped = c) :
    ({ c with nextId := n } : Catalog).regrouped = { c with nextId := n } := by
  have same : (c.roots.foldl groupTree c).nextId = c.nextId :=
    (congrArg nextId h : c.regrouped.nextId = c.nextId)
  have roots : ({ c with nextId := n } : Catalog).roots = c.roots := rfl
  have grouped := congrArg (fun c : Catalog => { c with nextId := n }) h
  rw [regrouped_eq] at grouped
  rw [regrouped_eq, roots, foldl_groupTree_withCounter _ same]
  exact grouped

/-- The groups of a grouped catalog have a root. -/
theorem exists_root_of_regrouped (h : c.regrouped = c) {id : GroupId} {group : Group}
    (there : c.groups.get? id = some group) : ∃ t, c.tables.get? group.root = some t := by
  rw [← h, regrouped_eq] at there
  rw [OrderedMap.get?_filter, Option.filter_eq_some_iff] at there
  have tables : (c.roots.foldl groupTree c).tables = c.tables :=
    (congrArg Catalog.tables h : c.regrouped.tables = c.tables)
  obtain ⟨t, found, _⟩ := (Option.any_eq_true ..).1 there.2
  exact ⟨t, tables ▸ found⟩

end GroupedTables.Catalog
