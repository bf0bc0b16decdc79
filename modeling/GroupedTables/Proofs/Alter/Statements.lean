import GroupedTables.Proofs.Alter.Agreement
import GroupedTables.Proofs.Alter.Room

/-!
# What comes of a statement

A statement is sorted, planned and handed to the backend. The memory that carries it out is one
with a catalog as it is between statements, from which no sequence is drawn by two columns.
Nothing that a statement can ask for trips an invariant then; and what is planned and carried
out is what the plan says, whether the table is changed in place or by a swap.
-/

namespace GroupedTables

open GroupedTables.Action Catalog Memory

variable {p : Planner Memory} {config : Config} {m : Memory} {current : Table} {k : Context}
  {elements : List Element}

theorem Route.foresees_ofElements (t : Table) (elements : List Element) :
    Check.Foresees (Route.ofElements t elements) :=
  (Route.refuses_ofElements t elements).mono fun _ refuses => refuses.foreseen

namespace Planner

section

open scoped Unbounded

variable {fails : Fault → Run Memory → Prop}

/-- The elements of a statement give the table another name, or are planned and carried out, or ask
for nothing that can be carried out. -/
theorem wp_alterElements_of {post : Option Level → Run Memory → Prop}
    (found : m.catalog.tables.get? current.id = some current)
    (unsorted : ∀ f, f.Foreseen → fails f ⟨m, k⟩)
    (unsupported : Route.ofElements current elements = .ok .unsupported → post none ⟨m, k⟩)
    (renamed : ∀ newName, Route.ofElements current elements = .ok (.rename newName) →
      WP (Memory.renameTable current.name (newName.resolve p.schema))
        (fun _ m' => post (some .metadata) ⟨m', k⟩) (fun f m' => fails f ⟨m', k⟩) m)
    (edited : ∀ e, Route.ofElements current elements = .ok (.edit e) →
      WP (p.plan m.catalog current.id current e)
        (fun plan k' => WP (Memory.alterTable config copyRows current.name plan.staged
          plan.columnChanges plan.indexChanges) (fun level => post (some level)) fails ⟨m, k'⟩)
        (fun f k' => fails f ⟨m, k'⟩) k) :
    WP ((p.over config).alterElements m.catalog current.id elements) post fails ⟨m, k⟩ := by
  unfold alterElements
  rw [wp_bind, wp_lift_of_ok (table_of_get? found), wp_bind, wp_lift]
  refine ⟨fun route sorted => ?_, fun f failed =>
    unsorted f (Route.foresees_ofElements current elements f failed)⟩
  cases route with
  | unsupported => exact unsupported sorted
  | rename newName => exact (wp_bind _ _).2 (wp_within.2 (renamed newName sorted))
  | edit e =>
    simp only [plan_over]
    rw [wp_bind]
    refine wp_within.2 ((edited e sorted).mono_post fun plan k' carried => ?_)
    exact (wp_bind _ _).2 carried

/-- A statement about a table carries its elements out, or leaves the catalog alone. -/
theorem wp_alterTable_of {post : Option Level → Run Memory → Prop} (numbered : m.catalog.Numbered)
    (s : AlterTable) (unknown : ∀ f, f.Foreseen → fails f ⟨m, k⟩)
    (other : ∀ m', m'.catalog = m.catalog → (∀ elements, s.operation ≠ .elements elements) →
      post none ⟨m', k⟩)
    (carried : ∀ current elements, m.catalog.tableNamed (s.table.resolve p.schema) = .ok current →
      m.catalog.tables.get? current.id = some current → s.operation = .elements elements →
      WP ((p.over config).alterWhole m.catalog current.id s elements)
        (fun level => post (some level)) fails ⟨m, k⟩) :
    WP ((p.over config).alterTable s) post fails ⟨m, k⟩ := by
  unfold alterTable
  rw [wp_bind, wp_get, wp_bind, wp_lift]
  refine ⟨fun current named => ?_, fun f failed => unknown f (foresees_tableNamed _ _ f failed)⟩
  obtain ⟨found, _⟩ := numbered.get?_of_tableNamed? (tableNamed_eq_ok_iff.1 named)
  have gathered (indexes : Option (List String)) {post' : Unit → Run Memory → Prop}
      (ok : ∀ m', m'.catalog = m.catalog → post' () ⟨m', k⟩) :
      WP (Run.onState (Memory.gatherStatistics (s.table.resolve p.schema) indexes)) post' fails
        ⟨m, k⟩ := by
    apply wp_within.2
    unfold Memory.gatherStatistics
    rw [wp_bind, wp_get, wp_bind, wp_lift]
    exact ⟨fun _ _ => ok _ rfl, fun f failed => unknown f (foresees_tableNamed _ _ f failed)⟩
  cases operation : s.operation with
  | statistics index =>
    have plain : ∀ elements, s.operation ≠ .elements elements := by simp [operation]
    cases index with
    | none => exact (wp_bind _ _).2 (gathered none fun m' same => other m' same plain)
    | some index =>
      refine wp_ite.2 ⟨fun _ => unknown _ trivial, fun _ => (wp_bind _ _).2 ?_⟩
      exact gathered _ fun m' same => other m' same plain
  | truncate cascade =>
    have plain : ∀ elements, s.operation ≠ .elements elements := by simp [operation]
    refine (wp_bind _ _).2 (wp_within.2 ?_)
    change WP (Memory.truncateTable current.id cascade) _ _ _
    unfold Memory.truncateTable Memory.editRows Memory.record
    rw [wp_bind, wp_get, wp_bind, wp_modify, wp_modify]
    exact other _ rfl plain
  | elements elements => exact (wp_map _).2 (carried current elements named found operation)

end

end Planner

/-- No row is stored under an id that was not given away. -/
def Memory.Housed (m : Memory) : Prop := ∀ k, m.catalog.nextId < k → m.rows.rows k = []

/-- The edits of a statement were planned, and the catalog is what the plan says. The rows of the
table are those it had, behind what was stored under the id that the table has got. -/
def Planner.Fulfilled (p : Planner Memory) (m : Memory) (current : Table) (e : Edits)
    (k : Context) (r : Run Memory) : Prop :=
  ∃ plan k' d x, p.plan m.catalog current.id current e k = .ok plan k' ∧
    plan.staged.definition = .ok d ∧
    Realises m.catalog plan.staged.catalog current d x r.state.catalog ∧
    r.state.rows.rows x =
      (if x = current.id then [] else m.rows.rows x) ++ m.rows.rows current.id ∧
    (m.Housed → r.state.rows.rows x = m.rows.rows current.id ∧ r.state.Housed)

namespace Planner

variable (wf : m.catalog.WellFormed) (apart : m.catalog.SequencesApart)

include wf apart

section

open scoped Unbounded

theorem wp_alterElements (found : m.catalog.tables.get? current.id = some current) :
    WP ((p.over config).alterElements m.catalog current.id elements)
      (fun _ r => ∀ e, Route.ofElements current elements = .ok (.edit e) →
        p.Fulfilled m current e k r)
      (fun f _ => f.Foreseen) ⟨m, k⟩ := by
  apply wp_alterElements_of found (fun _ => id)
  case unsupported =>
    intro sorted e sorted'
    exact nomatch sorted.symm.trans sorted'
  case renamed =>
    intro newName sorted
    exact Memory.wp_renameTable wf.numbered (tableNamed_eq_ok_iff.1 (wf.tableNamed_eq found))
      (fun _ _ => id) fun _ e sorted' => nomatch sorted.symm.trans sorted'
  case edited =>
    intro e sorted
    refine ((p.wp_plan wf found e k).outcome).mono ?_ fun f _ failed => failed.2 apart
    rintro plan k' ⟨planned, fits, _⟩
    obtain ⟨d, there, drafted⟩ := fits.drafts.itself
    have defined := fits.definition_eq there
    refine Memory.wp_alterTable wf found fits there Memory.confined_copyRows
      (fun f _ unsound => (unsound apart).1) ?_ ?_ ?_
    · rintro f m₂ _ _ (filled | ⟨_, foreseen, _⟩)
      · exact (filled.not_error_copyRows wf found rfl).elim
      · exact foreseen
    · rintro level m' k'' ⟨committed, _⟩ rows e' sorted'
      cases sorted.symm.trans sorted'
      refine ⟨plan, k', d, current.id, planned, defined, committed.toRealises, ?_,
        fun housed => ⟨?_, ?_⟩⟩
      · rw [rows, if_pos rfl, List.nil_append]
      · rw [rows]
      · intro k above
        rw [rows]
        exact housed k (Nat.lt_of_le_of_lt committed.counter.1 above)
    · rintro level m₂ m' k'' filled committed _ rows e' sorted'
      cases sorted.symm.trans sorted'
      have fresh := ne_fresh_of_found wf found
      have moved : m'.rows.rows (m.catalog.nextId + 1) =
          m.rows.rows (m.catalog.nextId + 1) ++ m.rows.rows current.id := by
        rw [rows, Record.StoredRows.rows_truncate, if_neg fresh.symm,
          filled.rows_copyRows wf found rfl]
      refine ⟨plan, k', d, _, planned, defined, committed.toRealises, ?_,
        fun housed => ⟨?_, ?_⟩⟩
      · rw [moved, if_neg fresh.symm]
      · rw [moved, housed _ (Nat.lt_succ_self _), List.nil_append]
      · intro k above
        have other : k ≠ m.catalog.nextId + 1 := by
          rintro rfl
          exact Nat.not_le.2 above committed.counter.2
        have old := Nat.lt_of_le_of_lt committed.counter.1 above
        rw [rows, Record.StoredRows.rows_truncate,
          (filled.addsRows_ok Memory.confined_copyRows).rows_eq wf filled.free other]
        split
        · rfl
        · exact housed k old

theorem wp_alterWhole (found : m.catalog.tables.get? current.id = some current)
    (statement : AlterTable) :
    WP ((p.over config).alterWhole m.catalog current.id statement elements)
      (fun _ r => ∀ e, Route.ofElements current elements = .ok (.edit e) →
        p.Fulfilled m current e k r)
      (fun f _ => f.Foreseen) ⟨m, k⟩ := by
  unfold alterWhole
  rw [wp_bind]
  apply (wp_alterElements wf apart found).mono_post
  intro level r fulfilled
  cases level with
  | some level => exact fulfilled
  | none => trivial

/-- What comes of a statement about a table. -/
theorem wp_alterTable (s : AlterTable) :
    WP ((p.over config).alterTable s)
      (fun _ r => ∀ elements, s.operation = .elements elements →
        ∃ current, m.catalog.tableNamed (s.table.resolve p.schema) = .ok current ∧
          ∀ e, Route.ofElements current elements = .ok (.edit e) → p.Fulfilled m current e k r)
      (fun f _ => f.Foreseen) ⟨m, k⟩ := by
  refine wp_alterTable_of wf.numbered s (fun _ => id) (fun _ _ plain elements operation =>
    absurd operation (plain elements)) fun current elements named found operation => ?_
  apply (wp_alterWhole wf apart found s).mono_post
  intro level r fulfilled elements' operation'
  cases operation.symm.trans operation'
  exact ⟨current, named, fulfilled⟩

/-- What comes of a statement about a group. -/
theorem wp_alterGroup (s : AlterGroup) :
    WP ((p.over config).alterGroup s)
      (fun _ r => ∃ current, m.catalog.tableNamed (s.table.resolve p.schema) = .ok current ∧
        ∀ e, Route.ofElements current s.elements = .ok (.edit e) → p.Fulfilled m current e k r)
      (fun f _ => f.Foreseen) ⟨m, k⟩ := by
  unfold alterGroup
  rw [wp_bind, wp_get, wp_bind, wp_lift]
  refine ⟨fun current named => ?_, foresees_tableNamed _ _⟩
  obtain ⟨found, _⟩ := wf.numbered.get?_of_tableNamed? (tableNamed_eq_ok_iff.1 named)
  exact (wp_alterWhole wf apart found _).mono_post fun _ _ fulfilled =>
    ⟨current, named, fulfilled⟩

end

omit wf apart

def naming : AlterTable where
  table := ⟨none, "customer"⟩
  operation := .elements [.addColumn { name := "name", descriptor := .ofType .bigInt }]

/-- Customers, and orders with their items. The last id was given away, and the first one is that of
the items. -/
def exhaustedMarket : Memory where
  catalog := {
    tables := .ofList [(1, customers), (2, { orders with parentJoin := none, group := some 8 }),
      (0, { orders with id := 0, name := ⟨"shop", "item"⟩, parentJoin := some 7, group := some 8 })]
    joins := .ofList
      [(7, { id := 7, parent := 2, child := 0, columns := [⟨"number", "customer"⟩] })]
    groups := .ofList [(4, { id := 4, name := "customer", root := 1 }),
      (8, { id := 8, name := "order", root := 2 })]
    sequences := shop.sequences
    nextId := Word.bound - 1 }

variable (wf : m.catalog.WellFormed) (apart : m.catalog.SequencesApart)

/-- The shop with a row under the next id, although no table has it yet. -/
def forestalledShop : Memory :=
  { stockedShop with rows := stockedShop.rows.insert (stockedShop.catalog.nextId + 1) [8] }

end Planner

end GroupedTables
