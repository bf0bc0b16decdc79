import GroupedTables.Proofs.Catalog.Counting
import GroupedTables.Proofs.Catalog.Groups
import GroupedTables.Proofs.Catalog.Validation

/-!
# What holds of every catalog

No edit validates the catalog it leaves, and the places of tables are told three times over:
by the joins, by the tables that name them and by the groups. They agree all the same in
whatever edits make of the empty catalog, and no edit lets a tree become a circle. Missing is
only what a grouping brings about: until then a tree may be without a group, and a group
without tables.
-/

namespace GroupedTables.Catalog

open GroupedTables.Action Relation
open scoped Unbounded

variable {c c' : Catalog} {x parent child : TableId} {i : JoinId} {s : SequenceId} {q : Sequence}
  {name : TableName} {definition p t : Table} {f : Table → Table} {columns : List JoinColumn}

theorem DistinctNames.of_bodies (h : c.DistinctNames)
    (fewer : ∀ ⦃k b⦄, c'.bodies.get? k = some b → c.bodies.get? k = some b) :
    c'.DistinctNames := by
  intro k k' t t' there there' same
  obtain ⟨u, found, body⟩ := get?_bodies_eq_some.1 (fewer (get?_bodies_eq_some.2 ⟨t, there, rfl⟩))
  obtain ⟨u', found', body'⟩ :=
    get?_bodies_eq_some.1 (fewer (get?_bodies_eq_some.2 ⟨t', there', rfl⟩))
  refine h found found' ?_
  rw [← Table.body_name, body, Table.body_name, same, ← Table.body_name, ← body', Table.body_name]

theorem Positioned.of_bodies (h : c.Positioned)
    (fewer : ∀ ⦃k b⦄, c'.bodies.get? k = some b → c.bodies.get? k = some b) :
    c'.Positioned := by
  intro k t there
  obtain ⟨u, found, body⟩ := get?_bodies_eq_some.1 (fewer (get?_bodies_eq_some.2 ⟨t, there, rfl⟩))
  refine Table.positioned_of_columns (h found) ?_
  rw [← Table.body_columns, ← body, Table.body_columns]

theorem DistinctNames.editing (h : c.DistinctNames) (same : ∀ t, (f t).name = t.name) :
    (c.editing x f).DistinctNames := by
  have old ⦃k : TableId⦄ ⦃t : Table⦄ (there : (c.editing x f).tables.get? k = some t) :
      ∃ u, c.tables.get? k = some u ∧ u.name = t.name := by
    rw [get?_editing] at there
    split at there
    · obtain ⟨u, found, rfl⟩ := Option.map_eq_some_iff.1 there
      exact ⟨u, found, (same u).symm⟩
    · exact ⟨t, there, rfl⟩
  intro k k' t t' there there' equal
  obtain ⟨u, found, named⟩ := old there
  obtain ⟨u', found', named'⟩ := old there'
  exact h found found' (named.trans (equal.trans named'.symm))

theorem Positioned.editing (h : c.Positioned)
    (kept : ∀ t, c.tables.get? x = some t → t.Positioned → (f t).Positioned) :
    (c.editing x f).Positioned := by
  intro k t there
  rw [get?_editing] at there
  split at there
  case isTrue same =>
    obtain ⟨u, found, rfl⟩ := Option.map_eq_some_iff.1 there
    exact kept u (same ▸ found) (h found)
  case isFalse => exact h there

theorem Positioned.created (h : c.Positioned) : (c.created definition).Positioned := by
  intro k t there
  rw [get?_created] at there
  split at there
  · cases there
    exact Table.positioned_renumbered _
  · exact h there

/-- A table may be given the name it has, and otherwise only one that is free. -/
theorem DistinctNames.renamed_of_own (h : c.DistinctNames) (numbered : c.Numbered)
    (own : ∀ holder, c.tableNamed? name = some holder → holder.id = x) :
    (c.renamed x name).DistinctNames := by
  cases named : c.tableNamed? name with
  | none => exact h.renamed named
  | some holder =>
    obtain ⟨there, rfl⟩ := numbered.get?_of_tableNamed? named
    rw [own holder named] at there
    refine h.of_bodies fun k b found => ?_
    obtain ⟨u, found', rfl⟩ := get?_bodies_eq_some.1 found
    rw [get?_bodies_eq_some]
    by_cases same : k = x
    · subst same
      cases (get?_renamed_self there).symm.trans found'
      exact ⟨holder, there, rfl⟩
    · exact ⟨u, (get?_renamed_of_ne same).symm.trans found', rfl⟩

/-- A catalog as edits leave it: what is told twice agrees, and no table is below itself. -/
structure Orderly (c : Catalog) : Prop extends Intact c where
  names : c.DistinctNames
  positioned : c.Positioned
  acyclic : c.Acyclic
  led : c.Led

theorem WellFormed.orderly (h : c.WellFormed) (led : c.Led) : c.Orderly :=
  { h.intact with names := h.distinctNames, positioned := h.positioned, acyclic := h.acyclic, led }

theorem orderly_empty : empty.Orderly :=
  WellFormed.orderly (by decide +kernel) nofun

namespace Orderly

variable (h : c.Orderly)

include h

theorem created (free : c.tableNamed? definition.name = none) : (c.created definition).Orderly where
  toIntact := h.toIntact.created
  names := h.names.created free
  positioned := h.positioned.created
  acyclic := h.acyclic.mono fun _ _ => id
  led := h.led.congr (fun _ => groupOf_created h.toNumbered) rfl (fun _ _ => id)
    fun _ => hook_created h.toNumbered

theorem renamed (free : ∀ holder, c.tableNamed? name = some holder → holder.id = x) :
    (c.renamed x name).Orderly where
  toIntact := h.toIntact.renamed
  names := h.names.renamed_of_own h.toNumbered free
  positioned := h.positioned.editing fun _ _ => id
  acyclic := h.acyclic.mono fun _ _ => id
  led := h.led.editing (fun _ => rfl) fun _ => rfl

theorem removed : (c.removed x t).Orderly := by
  have fewer ⦃k b⦄ (there : (c.removed x t).bodies.get? k = some b) : c.bodies.get? k = some b := by
    rw [bodies_removed, OrderedMap.get?_erase] at there
    split at there
    · cases there
    · exact there
  exact {
    toIntact := h.toIntact.removed
    names := h.names.of_bodies fewer
    positioned := h.positioned.of_bodies fewer
    acyclic := h.acyclic.mono fun i j there => by
      rw [joins_removed h.toLinked, OrderedMap.get?_filter, Option.filter_eq_some_iff] at there
      exact there.1
    led := h.led.removed h.toIntact }

theorem revised (revises : Revises f)
    (positioned : ∀ t, c.tables.get? x = some t → t.Positioned → (f t).Positioned) :
    (c.editing x f).Orderly where
  toIntact := h.toIntact.editing revises.id revises.parentJoin revises.group
  names := h.names.editing revises.name
  positioned := h.positioned.editing positioned
  acyclic := h.acyclic.mono fun _ _ => id
  led := h.led.editing revises.parentJoin revises.group

theorem joined (above : c.tables.get? parent = some p) (below : c.tables.get? child = some t)
    (off : c.hook child = none) (acyclic : parent ∉ c.subtree child) :
    (c.joined parent child columns).Orderly where
  toIntact := h.toIntact.joined below above off acyclic
  names := h.names.of_bodies fun k b => by rw [bodies_joined]; exact id
  positioned := h.positioned.of_bodies fun k b => by rw [bodies_joined]; exact id
  acyclic := h.acyclic.joined h.toNumbered acyclic
  led := h.led.joined h.toNumbered below acyclic

theorem detached : (c.detached x).Orderly where
  toIntact := h.toIntact.detached
  names := h.names.of_bodies fun k b => by rw [bodies_detached]; exact id
  positioned := h.positioned.of_bodies fun k b => by rw [bodies_detached]; exact id
  acyclic := h.acyclic.mono fun i j there => by
    rw [joins_detached h.toLinked, OrderedMap.get?_filter, Option.filter_eq_some_iff] at there
    exact there.1
  led := h.led.detached h.toLinked

theorem repaired : (c.repaired i columns).Orderly where
  toIntact := h.toIntact.repaired
  names := h.names
  positioned := h.positioned
  acyclic := h.acyclic.of_hangs fun _ _ => hangs_repaired.1
  led := h.led.congr (fun _ => rfl) rfl (fun _ _ => hangs_repaired.2) fun _ => rfl

theorem regrouped : c.regrouped.Orderly where
  toIntact := h.toIntact.regrouped
  names := h.names.of_bodies fun k b => by rw [bodies_regrouped]; exact id
  positioned := h.positioned.of_bodies fun k b => by rw [bodies_regrouped]; exact id
  acyclic := h.acyclic.regrouped
  led := led_regrouped h.toNumbered h.toLinked h.acyclic

theorem supplying : (c.supplying q).Orderly where
  toIntact := h.toIntact.supplying
  names := h.names
  positioned := h.positioned
  acyclic := h.acyclic.mono fun _ _ => id
  led := h.led

theorem unsupplied : ({ c with sequences := c.sequences.erase s } : Catalog).Orderly where
  toIntact := h.toIntact.unsupplied
  names := h.names
  positioned := h.positioned
  acyclic := h.acyclic.mono fun _ _ => id
  led := h.led

/-- No step of an edit brings a catalog into disorder. -/
theorem step (taken : c.Step c') : c'.Orderly := by
  cases taken with
  | created free => exact h.created free
  | renamed free => exact h.renamed free
  | removed => exact h.removed
  | revised revises positioned => exact h.revised revises positioned
  | joined above below off acyclic => exact h.joined above below off acyclic
  | detached => exact h.detached
  | repaired => exact h.repaired
  | regrouped => exact h.regrouped
  | supplying => exact h.supplying
  | unsupplied => exact h.unsupplied

theorem steps (taken : c.Steps c') : c'.Orderly := by
  induction taken with
  | refl => exact h
  | tail _ last ih => exact ih.step last

/-- Every table has a root, and a table that is in a group is in one with that root. -/
theorem exists_rootOf (there : c.tables.get? x = some t) :
    ∃ root, c.rootOf x = .ok root ∧
      ∀ g, t.group = some g → ∃ group, c.groups.get? g = some group ∧ group.root = root := by
  obtain ⟨root, ended⟩ := h.toLinked.exists_rootOf h.acyclic ⟨t, there⟩
  obtain ⟨below, top⟩ := (h.toLinked.rootOf_eq_ok_iff ⟨t, there⟩).1 ended
  refine ⟨root, ended, fun g grouped => ?_⟩
  obtain ⟨group, found, below', top'⟩ := h.led ((groupOf_of_get? there).trans grouped)
  exact ⟨group, found, h.toLinked.top_unique below' below top' top⟩

end Orderly

/-- The catalog that some calls make of the empty one. -/
def history [Numbering] (requests : List Request) : Catalog := requests.foldl Request.after empty

theorem orderly_history (requests : List Request) : (history requests).Orderly := by
  have after (c : Catalog) (h : c.Orderly) : (requests.foldl Request.after c).Orderly := by
    induction requests generalizing c with
    | nil => exact h
    | cons request rest ih => exact ih _ (h.steps (request.steps_after h.toIntact))
  exact after empty orderly_empty

/-- Whatever calls come one after the other, failing ones among them: entities are under their
ids, no two tables have one name, columns stand at their positions, joins and tables tell of
the same trees, every tree has a root, and tables are in the group of their tree or in none.
Until the last word is given away as an id, words come to the same. -/
theorem history_fitsTogether (requests : List Request) :
    ((history requests).Intact ∧ ((history requests).tables.values.map Table.name).Nodup ∧
      ∀ k t, (history requests).tables.get? k = some t → t.Positioned ∧
        ∃ root, (history requests).rootOf k = .ok root ∧ ∀ g, t.group = some g →
          ∃ group, (history requests).groups.get? g = some group ∧ group.root = root) ∧
      ((history requests).nextId < Word.bound → @history .words requests = history requests) := by
  have h := orderly_history requests
  refine ⟨⟨h.toIntact, h.names.nodup_names h.toNumbered, fun k t there =>
    ⟨h.positioned there, h.exists_rootOf there⟩⟩, fun room => ?_⟩
  exact orderly_empty.toIntact.foldl_after_words room

end GroupedTables.Catalog
