import GroupedTables.Proofs.Alter.IndexChanges
import Mathlib.Data.List.Find

/-!
# The name of the primary key

An index with the name of the primary key is the primary key, and the primary key has no other
name. Indexes that are put back keep both their name and their kind, and a made-up name is never
that of the primary key. A name that a constraint asks for is taken as it is, so a statement that
asks for this one takes it away from the primary key, and no other statement does.
-/

namespace GroupedTables

open GroupedTables.Action Catalog

/-- An index has the name of the primary key exactly if it is the primary key. -/
def Index.ProperlyNamed (i : Index) : Prop := i.name = primaryName ↔ i.primary = true

instance (i : Index) : Decidable i.ProperlyNamed := inferInstanceAs (Decidable (_ ↔ _))

/-- The name of the primary key is kept for it. -/
def Table.ReservesPrimary (t : Table) : Prop := ∀ i ∈ t.indexes, i.ProperlyNamed

instance (t : Table) : Decidable t.ReservesPrimary := inferInstanceAs (Decidable (∀ i ∈ _, _))

/-- A key is asked for under the name of the primary key without being it. -/
def KeyEdit.TakesPrimaryName : KeyEdit → Prop
  | .primary _ => False
  | .unique asked _ => asked = some Index.primaryName

variable {current t : Table} {elements : List Element} {e : Edits} {index : Index}
  {columnChanges changes : List Change} {c : Catalog}

namespace IndexNames

/-- A numbered name has a character in it that the name of the primary key has not. -/
theorem numbered_ne_primaryName (n : IndexNames) (base : String) (number : Nat) :
    n.numbered base number ≠ Index.primaryName := by
  intro same
  have inside : '_' ∈ (n.numbered base number).toList := by simp [numbered]
  rw [same] at inside
  exact absurd inside (by decide)

/-- The name of the primary key is never made up. -/
theorem unused_ne_primaryName (n : IndexNames) (base : String) :
    n.unused base ≠ Index.primaryName := by
  unfold unused
  dsimp only
  split
  case isTrue free =>
    rw [Bool.and_eq_true, bne_iff_ne] at free
    exact free.2
  case isFalse =>
    cases first : ((List.range (n.taken.length + 1)).map fun i =>
        n.numbered (n.cut base 0) (i + 2)).find? fun candidate => !n.taken.contains candidate with
    | none => decide
    | some name =>
      obtain ⟨i, _, rfl⟩ := List.mem_map.1 (List.mem_of_find?_eq_some first)
      exact n.numbered_ne_primaryName _ _

end IndexNames

namespace Table

/-- Where the name is kept for it, the primary key is found by its name. -/
theorem ReservesPrimary.primaryKey?_eq (h : t.ReservesPrimary) :
    t.primaryKey? = t.indexes.find? (·.primary) := by
  refine List.find?_congr fun i inside => ?_
  rw [Bool.eq_iff_iff, beq_iff_eq]
  exact h i inside

/-- Where indexes have names of their own besides, there is at most one primary key. -/
theorem ReservesPrimary.length_primaries_le (h : t.ReservesPrimary)
    (named : (t.indexes.map (·.name)).Nodup) : (t.indexes.filter (·.primary)).length ≤ 1 := by
  have nodup : ((t.indexes.filter (·.primary)).map (·.name)).Nodup :=
    named.sublist (List.filter_sublist.map _)
  have same : (t.indexes.filter (·.primary)).map (·.name) =
      List.replicate (t.indexes.filter (·.primary)).length Index.primaryName := by
    refine List.eq_replicate_iff.2 ⟨List.length_map _, fun name listed => ?_⟩
    obtain ⟨i, kept, rfl⟩ := List.mem_map.1 listed
    obtain ⟨inside, primary⟩ := List.mem_filter.1 kept
    exact (h i inside).2 primary
  rw [same] at nodup
  exact List.nodup_replicate.1 nodup

end Table

/-- The table is there, and its indexes have names of their own. -/
def IndexedApart (current : Table) (c : Catalog) (t : Table) : Prop :=
  c.tables.get? current.id = some t ∧ (t.indexes.map (·.name)).Nodup

/-- An index is added under a name of its own. -/
theorem IndexedApart.wp_addIndex (h : IndexedApart current c t) :
    WP (addIndex current.id index)
      (fun _ c => ∃ t', IndexedApart current c t' ∧ t'.indexes = t.indexes ++ [index])
      (fun _ _ => True) c := by
  refine wp_addIndex_of h.1 (fun _ => trivial) (fun _ _ => trivial) fun free _ => ?_
  refine ⟨_, ⟨get?_editing_self h.1, ?_⟩, rfl⟩
  rw [List.map_append, List.map_singleton, ← List.concat_eq_append]
  exact (List.nodup_concat _ _).2 ⟨Table.index?_eq_none_iff.1 free, h.2⟩

theorem Table.reservesPrimary_append {t' : Table} (indexes : t'.indexes = t.indexes ++ [index]) :
    t'.ReservesPrimary ↔ t.ReservesPrimary ∧ index.ProperlyNamed := by
  simp only [ReservesPrimary, indexes, List.forall_mem_append, List.forall_mem_singleton]

/-- Indexes are put back, and those still to come are properly named too. -/
def PutBackProperly (current : Table) (rest : List Index) (c : Catalog) : Prop :=
  (∀ i ∈ rest, i.ProperlyNamed) ∧ ∃ t, IndexedApart current c t ∧ t.ReservesPrimary

/-- An index keeps its name and kind when it is put back. -/
theorem PutBackProperly.wp_keepIndex {rest : List Index}
    (h : PutBackProperly current (index :: rest) c) :
    WP (Draft.keepIndex current.id columnChanges changes index)
      (fun _ => PutBackProperly current rest) (fun _ _ => True) c := by
  obtain ⟨proper, t, apart, reserved⟩ := h
  obtain ⟨first, others⟩ := List.forall_mem_cons.1 proper
  have unchanged : PutBackProperly current rest c := ⟨others, t, apart, reserved⟩
  unfold Draft.keepIndex
  simp only [wp_ite, wp_bind, wp_pure]
  refine ⟨fun _ => unchanged, fun _ => ⟨fun _ => unchanged, fun _ => ?_⟩⟩
  refine apart.wp_addIndex.mono_post ?_
  rintro _ c ⟨t', apart', indexes⟩
  have kept : PutBackProperly current rest c :=
    ⟨others, t', apart', (Table.reservesPrimary_append indexes).2 ⟨reserved, first⟩⟩
  rw [wp_ite]
  exact ⟨fun _ => kept, fun _ => kept⟩

/-- The keys of some constraints were added. The name of the primary key is still kept for it,
unless one of them took it. -/
def KeyedProperly (current : Table) (keys rest : List KeyEdit) (c : Catalog) : Prop :=
  ∃ made t, keys = made ++ rest ∧ IndexedApart current c t ∧
    (t.ReservesPrimary ↔ ∀ key ∈ made, ¬key.TakesPrimaryName)

namespace KeyedProperly

variable {keys rest : List KeyEdit} {key : KeyEdit}

theorem wp_addIndex (h : KeyedProperly current keys (key :: rest) c)
    (takes : index.ProperlyNamed ↔ ¬key.TakesPrimaryName) :
    WP (addIndex current.id index) (fun _ => KeyedProperly current keys rest) (fun _ _ => True)
      c := by
  obtain ⟨made, t, cut, apart, reserved⟩ := h
  refine apart.wp_addIndex.mono_post ?_
  rintro _ c ⟨t', apart', indexes⟩
  refine ⟨made ++ [key], t', by rw [cut, List.append_assoc]; rfl, apart', ?_⟩
  rw [Table.reservesPrimary_append indexes, reserved, takes, List.forall_mem_append,
    List.forall_mem_singleton]

/-- The index of a unique constraint is properly named unless it is given the name of the primary
key. -/
theorem wp_addKey (h : KeyedProperly current keys (key :: rest) c) (names : IndexNames) :
    WP (Draft.addKey current.id names changes key) (fun _ => KeyedProperly current keys rest)
      (fun _ _ => True) c := by
  cases key with
  | primary columns =>
    refine (wp_bind _ _).2 (h.wp_addIndex ?_)
    exact ⟨fun _ => id, fun _ => ⟨fun _ => rfl, fun _ => rfl⟩⟩
  | unique asked columns =>
    refine (wp_bind _ _).2 (h.wp_addIndex ?_)
    have secondary (name : String) :
        (Index.uniqueOf name columns).ProperlyNamed ↔ name ≠ Index.primaryName :=
      ⟨fun proper same => Bool.false_ne_true (proper.1 same),
        fun other => ⟨fun same => absurd same other, nofun⟩⟩
    refine (secondary _).trans ?_
    cases asked with
    | none => exact ⟨fun _ => nofun, fun _ => names.unused_ne_primaryName _⟩
    | some name => exact not_congr (Option.some_inj).symm

theorem ignoresPlaces {live : Catalog} : IgnoresPlaces live (KeyedProperly current keys rest) where
  moved := by
    rintro c c' moved ⟨made, t, cut, ⟨there, named⟩, reserved⟩
    obtain ⟨u, there', same⟩ := exists_of_bodies moved.bodies there
    have same : u.body.indexes = t.body.indexes := congrArg Table.indexes same
    rw [Table.body_indexes, Table.body_indexes] at same
    refine ⟨made, u, cut, ⟨there', same ▸ named⟩, ?_⟩
    rw [Table.ReservesPrimary, same]
    exact reserved
  copied := by
    rintro c k t _ free ⟨made, u, cut, ⟨there, named⟩, reserved⟩
    exact ⟨made, u, cut, ⟨get?_copied_of_get? free there, named⟩, reserved⟩

end KeyedProperly

/-- An element asks for a unique constraint under the name of the primary key. -/
theorem Edits.takesPrimaryName_iff :
    (∀ key ∈ (ofElements current elements).keys, ¬key.TakesPrimaryName) ↔
      ∀ columns, .addConstraint (.unique (some Index.primaryName) columns) ∉ elements := by
  constructor
  · intro none columns inside
    exact none (.unique (some Index.primaryName) columns) (List.mem_filterMap.2 ⟨_, inside, rfl⟩)
      rfl
  · intro unasked key inside takes
    obtain ⟨element, listed, same⟩ := List.mem_filterMap.1 inside
    cases element with
    | addConstraint constraint =>
      cases constraint with
      | primaryKey => cases same; exact takes
      | unique asked columns =>
        cases same
        cases takes
        exact unasked columns listed
      | check => cases same
    | _ => cases same

namespace Planner

variable {σ : Type} {p : Planner σ} {live : Catalog} {k k' : Context} {plan : Plan}
  (wf : live.WellFormed) (found : live.tables.get? current.id = some current)

include wf found

theorem wp_plan_keyed (proper : current.ReservesPrimary) (e : Edits) :
    WP (p.plan live current.id current e)
      (fun plan _ => KeyedProperly current e.keys [] plan.staged.catalog) (fun _ _ => True) k := by
  refine p.wp_plan_drafted fun test k passes _ => ?_
  rw [wp_bind]
  refine wp_within.2 ((Drafts.wp_resetTable wf found passes).mono_post ?_)
  rintro _ c ⟨bare, _⟩
  refine p.wp_draftEdits_of (fun _ d => Unindexed current d.catalog)
    (fun rest _ d => PutBackProperly current rest d.catalog)
    (fun rest _ d => KeyedProperly current e.keys rest d.catalog) bare
    (fun edit _ d bare => Unindexed.ignoresColumns.preserves_applyColumnEdit edit d bare) ?_
    (fun index rest changes d h => wp_within.2 h.wp_keepIndex) ?_
    (fun key rest names changes d h => wp_within.2 (h.wp_addKey names)) ?_
    fun _ _ h => ⟨fun _ _ => trivial, fun _ => h⟩
  · intro d bare
    refine (Draft.preserves_onContext Context.checkCancelled d bare).mono_post fun _ d bare => ?_
    refine ⟨fun _ _ _ _ => trivial, fun _ => ⟨proper, ?_⟩⟩
    obtain ⟨t, there, none⟩ := Option.map_eq_some_iff.1 bare
    exact ⟨t, ⟨there, none ▸ .nil⟩, by rw [Table.ReservesPrimary, none]; nofun⟩
  · intro changes d ⟨_, t, apart, reserved⟩
    exact ⟨[], t, rfl, apart, ⟨fun _ => nofun, fun _ => reserved⟩⟩
  · intro parent _ changes d h
    exact Draft.preserves_edit (KeyedProperly.ignoresPlaces.preserves_applyParentEdit wf.numbered
      current p.schema parent) d h

/-- In a catalog that keeps the name of the primary key for it on every table, a plan does so too
unless an element asks for a unique constraint of that name: on the table, where there is at most
one primary key then and it is the one that is looked up, and on every other table besides. -/
theorem reservesPrimary_iff_of_plan
    (reserved : ∀ ⦃k t⦄, live.tables.get? k = some t → t.ReservesPrimary)
    (route : Route.ofElements current elements = .ok (.edit e))
    (planned : p.plan live current.id current e k = .ok plan k') :
    ∃ d, plan.staged.definition = .ok d ∧
      (d.ReservesPrimary ↔
        ∀ columns, .addConstraint (.unique (some Index.primaryName) columns) ∉ elements) ∧
      (d.ReservesPrimary → (d.indexes.filter (·.primary)).length ≤ 1 ∧
        d.primaryKey? = d.indexes.find? (·.primary)) ∧
      ∀ ⦃x t⦄, x ≠ current.id → plan.staged.catalog.tables.get? x = some t → t.ReservesPrimary := by
  obtain ⟨fits, _, _⟩ := (p.wp_plan wf found e k).ok planned
  obtain ⟨made, d, cut, ⟨there, named⟩, untaken⟩ :=
    (wp_plan_keyed (p := p) (k := k) wf found (reserved found) e).ok planned
  rw [List.append_nil] at cut
  subst cut
  rw [Route.edits_eq route, Edits.takesPrimaryName_iff] at untaken
  refine ⟨d, fits.definition_eq there, untaken,
    fun proper => ⟨proper.length_primaries_le named, proper.primaryKey?_eq⟩,
    fun x t other there' => ?_⟩
  obtain ⟨l, listed, body⟩ := fits.drafts.others there' other
  have same : l.body.indexes = t.body.indexes := congrArg Table.indexes body
  rw [Table.body_indexes, Table.body_indexes] at same
  rw [Table.ReservesPrimary, ← same]
  exact reserved listed

omit wf found in
/-- The key of the orders is gone with its column, and their new key is the one that is looked
up. -/
theorem reservesPrimary_iff_of_plan_shop : ∃ e plan k d,
    Route.ofElements orders keyedByClient = .ok (.edit e) ∧
    swapping.plan shop 2 orders e {} = .ok plan k ∧ plan.staged.definition = .ok d ∧
    d.ReservesPrimary ∧ (d.indexes.filter (·.primary)).length ≤ 1 ∧
    d.primaryKey? = d.indexes.find? (·.primary) := by
  have reserved : ∀ ⦃k t⦄, shop.tables.get? k = some t → t.ReservesPrimary := by
    intro k t there
    have all : ∀ t ∈ shop.tables.values, t.ReservesPrimary := by decide +kernel
    exact all t (OrderedMap.mem_values there)
  have route : Route.ofElements orders keyedByClient =
      .ok (.edit (Edits.ofElements orders keyedByClient)) := rfl
  obtain ⟨plan, k, planned, _⟩ := exists_ok_of_wp (show
    WP (swapping.plan shop 2 orders (Edits.ofElements orders keyedByClient))
      (fun _ _ => True) (fun _ _ => False) {} by decide +kernel)
  obtain ⟨d, defined, untaken, follows, _⟩ :=
    reservesPrimary_iff_of_plan shop_wellFormed get?_shop_orders reserved route planned
  have proper := untaken.2 (by simp [keyedByClient])
  exact ⟨_, plan, k, d, route, planned, defined, proper, follows proper⟩

def unkeyed : Table where
  id := 1
  name := ⟨"shop", "item"⟩
  columns := [{ name := "label", descriptor := .ofType .bigInt }]

omit wf found in
/-- A unique constraint that asks for the name of the primary key gets it, although it is not the
primary key. It is then the index that is looked up as the primary key. -/
theorem not_reservesPrimary_of_asked : ∃ live e plan k d i,
    live.WellFormed ∧ live.tables.get? unkeyed.id = some unkeyed ∧
    (∀ t ∈ live.tables.values, t.ReservesPrimary) ∧
    Route.ofElements unkeyed [.addConstraint (.unique (some "PRIMARY") ["label"])] =
      .ok (.edit e) ∧
    swapping.plan live unkeyed.id unkeyed e {} = .ok plan k ∧
    Level.classify live unkeyed.id plan.staged plan.columnChanges plan.indexChanges = .ok .index ∧
    plan.staged.definition = .ok d ∧ i ∈ d.indexes ∧ i.name = Index.primaryName ∧
    i.primary = false ∧ d.primaryKey? = some i := by
  obtain ⟨plan, k, planned, classified, keyed⟩ := exists_ok_of_wp (show
    WP (swapping.plan { tables := .ofList [(1, unkeyed)], nextId := 1 } unkeyed.id unkeyed
        { keys := [.unique (some "PRIMARY") ["label"]] })
      (fun plan _ => Level.classify { tables := .ofList [(1, unkeyed)], nextId := 1 } unkeyed.id
          plan.staged plan.columnChanges plan.indexChanges = .ok .index ∧
        plan.staged.definition.toOption.map Table.indexes =
          some [.uniqueOf "PRIMARY" ["label"]])
      (fun _ _ => False) {} by decide +kernel)
  obtain ⟨d, defined, indexes⟩ := Staged.exists_definition keyed
  refine ⟨_, _, plan, k, d, .uniqueOf "PRIMARY" ["label"], by decide +kernel, by decide +kernel,
    by decide +kernel, rfl, planned, classified, defined, ?_, rfl, rfl, ?_⟩
  · rw [indexes]
    exact .head _
  · rw [Table.primaryKey?, Table.index?, indexes]
    rfl

end Planner

end GroupedTables
