import GroupedTables.Proofs.Alter.Budget
import GroupedTables.Proofs.Alter.Descent
import GroupedTables.Proofs.Alter.Elements
import GroupedTables.Proofs.Alter.Tally

/-!
# Room for a statement

A statement adds a column or a join with an element at most. So what it spends is bounded by the
number of its elements and the size of the catalog, however it is carried out and wherever it
fails. A statement there is room for is drafted with ids that are words and ends in words as it
ends without end, and every id that it gives away is the next one.
-/

namespace GroupedTables

open GroupedTables.Action Catalog Memory

/-- The elements of a statement about a table. -/
def AlterTable.elements (s : AlterTable) : List Element :=
  match s.operation with
  | .elements elements => elements
  | _ => []

variable {c live : Catalog} {m : Memory} {current d t : Table} {target : Staged} {x : TableId}
  {p : Planner Memory} {config : Config} {k : Context} {n : Nat} {elements : List Element}

namespace Catalog

/-- How many columns the tables have together. -/
def columnCount (c : Catalog) : Nat := (c.tables.values.flatMap Table.columns).length

/-- So many ids are left as a statement with so many elements may take: five for each of them and
for each table, join and column, and ten more. -/
def Roomy (c : Catalog) (elements : Nat) : Prop :=
  c.nextId + 5 * (c.tables.size + c.joins.size + c.columnCount + elements + 2) < Word.bound

instance : Decidable (c.Roomy n) := inferInstanceAs (Decidable (_ < _))

theorem Roomy.mono (h : c.Roomy n) {n' : Nat} (le : n' ≤ n) : c.Roomy n' := by
  unfold Roomy at h ⊢
  omega

theorem length_columns_le_columnCount (there : c.tables.get? x = some t) :
    t.columns.length ≤ c.columnCount :=
  (List.sublist_flatten_of_mem (List.mem_map_of_mem (OrderedMap.mem_values there))).length_le

theorem bounded_self (c : Catalog) (n : Nat) :
    c.Bounded c.tables.size (c.columnCount + n) c.nextId where
  tables := Nat.le_refl _
  columns _ _ there := Nat.le_trans (length_columns_le_columnCount there) (Nat.le_add_right ..)
  counter := Nat.le_refl _

/-- A catalog with room is grouped in words as without end. -/
theorem Roomy.regrouped_words (room : c.Roomy n) :
    c.regrouped = Unbounded.of fun _ => c.regrouped := by
  refine words_regrouped (Nat.lt_of_le_of_lt (c.bounded_self n).regrouped.counter ?_)
  unfold Roomy at room
  omega

end Catalog

/-- A draft has no other children of its table than the catalog. -/
theorem Staged.Fits.length_childJoins_le (h : target.Fits live current) :
    (target.catalog.childJoins target.table).length ≤ live.joins.size := by
  have keyed := h.drafts.intact.joins
  have ids : ((target.catalog.childJoins target.table).map (·.id)).Nodup :=
    keyed.nodup_numbers.sublist (List.filter_sublist.map _)
  have known : (target.catalog.childJoins target.table).map (·.id) ⊆ live.joins.keys := by
    intro i listed
    obtain ⟨j, inside, rfl⟩ := List.mem_map.1 listed
    obtain ⟨i, there⟩ := OrderedMap.mem_values_iff.1 (List.mem_filter.1 inside).1
    have below := eq_of_beq (List.mem_filter.1 inside).2
    obtain ⟨l, found, _⟩ := h.drafts.children there (below.trans h.table)
    exact (keyed there).1 ▸ OrderedMap.mem_keys_iff.2 ⟨l, found⟩
  have few := (ids.subperm known).length_le
  rwa [List.length_map, OrderedMap.keys, List.length_map] at few

namespace Sketch

variable {e : Edits}

/-- An edit adds one column at most. -/
theorem length_ofEdits_le :
    (ofEdits live current e).length ≤ current.columns.length + e.columns.length := by
  have loop (edits : List ColumnEdit) (sketches : List Sketch) :
      (edits.foldl (edited live current.name) sketches).length ≤
        sketches.length + edits.length := by
    induction edits generalizing sketches with
    | nil => exact Nat.le_refl _
    | cons edit rest ih =>
      refine Nat.le_trans (ih _) ?_
      cases edit with
      | add d =>
        rw [edited, List.length_append, List.length_singleton, List.length_cons]
        omega
      | modify name m =>
        rw [edited, List.length_map, List.length_cons]
        omega
  refine Nat.le_trans (loop _ _) (Nat.add_le_add_right ?_ _)
  exact List.length_filterMap_le _ _

end Sketch

/-- A statement has an element for each edit of a column or of the parent. -/
theorem Route.length_edits_le {e : Edits} (route : Route.ofElements t elements = .ok (.edit e)) :
    e.columns.length + e.parents.length ≤ elements.length := by
  rw [Route.edits_eq route]
  have sorted : (elements.filterMap Element.columnEdit?).length +
      (elements.filterMap Element.parentEdit?).length ≤ elements.length := by
    clear route
    induction elements with
    | nil => exact Nat.le_refl 0
    | cons element rest ih =>
      cases element with
      | addColumn | modifyColumn | addForeignKey | dropForeignKey =>
        simp only [List.filterMap_cons, Element.columnEdit?, Element.parentEdit?, List.length_cons]
        omega
      | _ => exact Nat.le_succ_of_le ih
  exact sorted

/-- A plan that there is room for is carried out in words as without end. -/
theorem Memory.alterTable_words {copier : Copier Memory} {name : TableName}
    {columnChanges indexChanges : List Change} (fits : target.Fits m.catalog current)
    (narrow : ∀ d, target.definition = .ok d → d.columns.length ≤ m.catalog.columnCount + n)
    (confined : Confined copier) (room : m.catalog.Roomy n) :
    Memory.alterTable config copier name target columnChanges indexChanges ⟨m, k⟩ =
      (Unbounded.of fun _ => Memory.alterTable config copier name target columnChanges indexChanges)
        ⟨m, k⟩ := by
  have few := fits.length_childJoins_le
  refine (spends_alterTable m.catalog.tables.size config confined name narrow columnChanges
    indexChanges).same (s := ⟨m, k⟩) (m.catalog.bounded_self n) ?_
  unfold Roomy at room
  omega

section

variable {copier : Copier Memory} {name : TableName} (fits : target.Fits m.catalog current)
  (narrow : d.columns.length ≤ m.catalog.columnCount + n) (room : m.catalog.Roomy n)

include fits narrow room

theorem Memory.check_rehearse_words (defined : target.definition = .ok d) :
    check (rehearse config name target) m =
      (Unbounded.of fun _ => check (rehearse config name target)) m := by
  have few := fits.length_childJoins_le
  have narrow' (d' : Table) (defined' : target.definition = .ok d') :
      d'.columns.length ≤ m.catalog.columnCount + n :=
    Except.ok.inj (defined.symm.trans defined') ▸ narrow
  refine (spends_rehearse m.catalog.tables.size config name narrow').check.same
    (m.catalog.bounded_self n) ?_
  unfold Roomy at room
  omega

/-- The steps of a swap and the take-over that follows them. -/
theorem Memory.execute_words (confined : Confined copier) :
    (Swap.ofConfig config name d).execute tableActions copier m =
      (Unbounded.of fun _ => (Swap.ofConfig config name d).execute tableActions copier) m ∧
    ∀ x m', (Swap.ofConfig config name d).execute tableActions copier m = .ok x m' →
      edit (takeOver x target) m' = (Unbounded.of fun _ => edit (takeOver x target)) m' := by
  have few := fits.length_childJoins_le
  have bounded := m.catalog.bounded_self n
  have swapped : Spends catalog _ _ _ _ fun _ =>
      (Swap.ofConfig config name d).execute tableActions copier :=
    spends_execute m.catalog.tables.size confined narrow
  unfold Roomy at room
  have executed := swapped.same bounded (by omega)
  refine ⟨executed, fun x m' ended => ?_⟩
  exact (spends_takeOver _ _ x target).edit.same
    ((swapped.spent bounded).ok (executed.symm.trans ended)) (by omega)

end

/-- Customers and items, which nothing joins. The last id was given away, and the first one is that
of the items. -/
def Memory.exhaustedShop : Memory where
  catalog := {
    tables := .ofList [(1, customers),
      (0, { id := 0, name := ⟨"shop", "item"⟩, indexes := [], group := some 8 })]
    groups := .ofList [(4, { id := 4, name := "customer", root := 1 }),
      (8, { id := 8, name := "item", root := 0 })]
    sequences := shop.sequences
    nextId := Word.bound - 1 }
  rows := ({} : Record.StoredRows).insert 1 [7]

/-- Dropping a table takes an id for each tree at most. -/
theorem Memory.dropTable_words {name : TableName} (room : m.catalog.Roomy n) :
    Memory.dropTable name m = (Unbounded.of fun _ => Memory.dropTable name) m := by
  refine (spends_dropTable m.catalog.tables.size _ name).same (m.catalog.bounded_self n) ?_
  unfold Roomy at room
  omega

namespace Planner

variable (wf : m.catalog.WellFormed) (found : m.catalog.tables.get? current.id = some current)

include wf found

/-- What is planned has the columns there were and those that the edits add at most. -/
theorem length_columns_le_of_plan {e : Edits} {plan : Plan} {k' : Context}
    (planned : p.plan m.catalog current.id current e k = .ok plan k') {d : Table}
    (defined : plan.staged.definition = .ok d) :
    d.columns.length ≤ m.catalog.columnCount + e.columns.length := by
  obtain ⟨t, sketched⟩ := (wp_plan_sketched wf found p e k).ok planned
  have fits := ((p.wp_plan wf found e k).ok planned).1
  obtain rfl := Except.ok.inj (defined.symm.trans (fits.definition_eq sketched.there))
  rw [← sketched.fits.length_eq]
  refine Nat.le_trans Sketch.length_ofEdits_le (Nat.add_le_add_right ?_ _)
  exact length_columns_le_columnCount found

omit found in
/-- All ids of the draft of a statement that there is room for are words. -/
theorem nextId_lt_bound_of_plan {e : Edits} {plan : Plan} {k' : Context}
    (route : Route.ofElements current elements = .ok (.edit e))
    (planned : p.plan m.catalog current.id current e k = .ok plan k')
    (room : m.catalog.Roomy elements.length) : plan.staged.catalog.nextId < Word.bound := by
  have few := nextId_le_of_plan wf.numbered planned
  have listed := Route.length_edits_le route
  unfold Roomy at room
  omega

theorem alterElements_words (room : m.catalog.Roomy elements.length) :
    (p.over config).alterElements m.catalog current.id elements ⟨m, k⟩ =
      (Unbounded.of fun _ => (p.over config).alterElements m.catalog current.id elements)
        ⟨m, k⟩ := by
  unfold Unbounded.of alterElements
  refine bind_eq_bind rfl fun t r looked => bind_eq_bind rfl fun route r tried => ?_
  obtain ⟨there, rfl⟩ := lift_eq_ok.1 looked
  obtain ⟨sorted, rfl⟩ := lift_eq_ok.1 tried
  obtain rfl := Except.ok.inj (there.symm.trans (table_of_get? found))
  cases route with
  | rename newName => rfl
  | unsupported => rfl
  | edit e =>
    refine bind_eq_bind rfl fun plan r drafted => bind_eq_bind ?_ fun _ _ _ => rfl
    obtain ⟨k', planned, rfl⟩ := within_eq_ok.1 drafted
    exact Memory.alterTable_words ((p.wp_plan wf found e k).ok planned).1
      (fun d => length_columns_le_of_plan wf found planned) confined_copyRows
      (room.mono (Nat.le_trans (Nat.le_add_right ..) (Route.length_edits_le sorted)))

theorem alterWhole_words (statement : AlterTable) (room : m.catalog.Roomy elements.length) :
    (p.over config).alterWhole m.catalog current.id statement elements ⟨m, k⟩ =
      (Unbounded.of fun _ => (p.over config).alterWhole m.catalog current.id statement elements)
        ⟨m, k⟩ :=
  bind_eq_bind (alterElements_words wf found room) fun _ _ _ => rfl

omit found

/-- A statement about a table that there is room for ends in words as it ends without end. -/
theorem alterTable_words {s : AlterTable} (room : m.catalog.Roomy s.elements.length) :
    (p.over config).alterTable s ⟨m, k⟩ =
      (Unbounded.of fun _ => (p.over config).alterTable s) ⟨m, k⟩ := by
  unfold Unbounded.of alterTable
  refine bind_eq_bind rfl fun r r' read => bind_eq_bind rfl fun t r'' looked => ?_
  cases read
  obtain ⟨named, rfl⟩ := lift_eq_ok.1 looked
  obtain ⟨found, _⟩ := wf.numbered.get?_of_tableNamed? (tableNamed_eq_ok_iff.1 named)
  cases operation : s.operation with
  | statistics index => cases index <;> rfl
  | truncate cascade => rfl
  | elements elements =>
    rw [AlterTable.elements, operation] at room
    exact bind_eq_bind (alterWhole_words wf found s room) fun _ _ _ => rfl

/-- So does a statement about a group. -/
theorem alterGroup_words {s : AlterGroup} (room : m.catalog.Roomy 1) :
    (p.over config).alterGroup s ⟨m, k⟩ =
      (Unbounded.of fun _ => (p.over config).alterGroup s) ⟨m, k⟩ := by
  unfold Unbounded.of alterGroup
  refine bind_eq_bind rfl fun r r' read => bind_eq_bind rfl fun t r'' looked => ?_
  cases read
  obtain ⟨named, rfl⟩ := lift_eq_ok.1 looked
  obtain ⟨found, _⟩ := wf.numbered.get?_of_tableNamed? (tableNamed_eq_ok_iff.1 named)
  have one : s.elements.length = 1 := by cases s <;> rfl
  exact alterWhole_words wf found s.alterTable (one ▸ room)

end Planner

end GroupedTables
