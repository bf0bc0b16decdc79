import GroupedTables.Proofs.Alter.Room

/-!
# Alterations are carried out as a whole or not at all

A swap takes several steps that are each visible from outside, so that it leaves no trace when
it fails is not a matter of course. It may fail in the trial run, before anything is done; when
the new table is created, for its name is taken; when it is filled; or when the old table is
moved away, for that name is taken. In the last two cases the new table is dropped again, and
of a grouped catalog nothing has changed then but the counter.
-/

namespace GroupedTables.Memory

open GroupedTables.Action Catalog

variable {m : Memory} {current : Table} {p : Planner Memory} {e : Edits} {plan : Planner.Plan}
  {k k' : Context} {copier : Copier Memory}

/-- Nothing was altered: the catalog is as it was but for its counter, every table has the rows
it had, and no alteration is in the journal that was not there before. -/
structure Unaltered (m m' : Memory) : Prop where
  catalog : ∃ n, m.catalog.nextId ≤ n ∧ m'.catalog = { m.catalog with nextId := n }
  rows : ∀ k t, m.catalog.tables.get? k = some t → m'.rows.rows k = m.rows.rows k
  alterations : m'.alterations = m.alterations

theorem Unaltered.refl (m : Memory) : Unaltered m m :=
  ⟨⟨_, Nat.le_refl _, rfl⟩, fun _ _ _ => rfl, rfl⟩

section

open scoped Unbounded

/-- Dropping the new table after it was filled leaves no trace of it. -/
theorem AddsRows.unaltered_dropped {w : Swap} {m₂ : Memory}
    (h : AddsRows (m.building w.replacement) w.temporaryNew m₂) (wf : m.catalog.WellFormed)
    (grouped : m.catalog.regrouped = m.catalog)
    (found : m.catalog.tables.get? current.id = some current)
    {names : List String} (drafted : Drafted m.catalog current names w.definition)
    (free : m.catalog.tableNamed? w.temporaryNew = none) :
    Unaltered m (m₂.dropped (m.catalog.newTable w.replacement)) where
  catalog := by
    refine ⟨m.catalog.nextId + 1, Nat.le_succ _, ?_⟩
    have given_up : ((m.catalog.created w.replacement).removed (m.catalog.nextId + 1)
        (m.catalog.newTable w.replacement)).regrouped =
        { m.catalog with nextId := m.catalog.nextId + 1 } :=
      regrouped_removed_created wf found grouped drafted.drawn
        (columns_newTable drafted.positioned)
    rw [← given_up, dropped, h.catalog]
    rfl
  rows k t there := by
    have other : k ≠ m.catalog.nextId + 1 :=
      Nat.ne_of_lt (Nat.lt_succ_of_le (wf.numbered.tables_le there))
    rw [dropped, Record.StoredRows.rows_truncate, ← h.rows_eq wf free other]
    exact if_neg other
  alterations := by
    have before : (m.building w.replacement).alterations = m.alterations := alterations_building
    rw [alterations_dropped, ← before, alterations, h.journal, alterations]

/-- A swap that its trial run lets pass and that comes through is not refused the take-over. -/
theorem takeOver_of_execute {config : Config} {d : Table} {target : Staged} {id : TableId}
    {m₀ m' : Memory} (wf : m.catalog.WellFormed)
    (found : m.catalog.tables.get? current.id = some current)
    (fits : target.Fits m.catalog current) (defined : target.definition = .ok d)
    (confined : Confined copier)
    (passed : check (rehearse config current.name target) m = .ok () m₀)
    (executed : (swapOf config current d).execute tableActions copier m = .ok id m') :
    ∃ m'', edit (takeOver id target) m' = .ok () m'' := by
  have planned : target.catalog.tables.get? current.id = some d := by
    rw [Staged.definition, fits.table] at defined
    exact table_eq_ok_iff.1 defined
  have foretold := wp_rehearse_foretells config wf found fits planned
  have tried : WP (check (rehearse config current.name target))
      (fun _ _ => ∃ c, takeOver (m.catalog.nextId + 1) target
        (m.catalog.replaced current (swapOf config current d).replacement) = .ok () c)
      (fun _ _ => True) m :=
    wp_check (fun _ _ _ => trivial) fun _ _ tried => (foretold.ok tried).imp fun _ => And.left
  have reached : WP ((swapOf config current d).execute tableActions copier)
      (fun id m' => id = m.catalog.nextId + 1 ∧
        m'.catalog = m.catalog.replaced current (swapOf config current d).replacement)
      (fun _ _ => True) m :=
    wp_execute wf found rfl confined (fun _ _ _ => trivial) (fun _ _ _ => trivial)
      fun _ _ _ same _ _ => ⟨rfl, same⟩
  obtain ⟨c, succeeds⟩ := tried.ok passed
  obtain ⟨rfl, same⟩ := reached.ok executed
  refine ⟨{ m' with catalog := c }, eq_ok_of_wp ?_⟩
  rw [← same] at succeeds
  unfold edit
  rw [wp_within, wp_allOrNothing, wp_of_ok succeeds]
  exact ⟨rfl, rfl⟩

/-- An alteration that was planned on a grouped catalog and fails leaves no trace. -/
theorem wp_alterTable_unaltered (wf : m.catalog.WellFormed)
    (grouped : m.catalog.regrouped = m.catalog)
    (found : m.catalog.tables.get? current.id = some current) (confined : Confined copier)
    (planned : p.plan m.catalog current.id current e k = .ok plan k') (config : Config)
    (context : Context) :
    WP (alterTable config copier current.name plan.staged plan.columnChanges plan.indexChanges)
      (fun _ _ => True) (fun _ r => Unaltered m r.state) ⟨m, context⟩ := by
  obtain ⟨fits, _⟩ := (p.wp_plan wf found e k).ok planned
  obtain ⟨d, there, drafted⟩ := fits.drafts.itself
  refine wp_alterTable wf found fits there confined (fun _ _ _ => .refl m) ?_
    (fun _ _ _ _ _ => trivial) fun _ _ _ _ _ _ _ _ => trivial
  rintro f m₂ _ _ (filled | ⟨filled, _⟩)
  · exact (filled.addsRows_error confined).unaltered_dropped wf grouped found drafted filled.free
  · exact (filled.addsRows_ok confined).unaltered_dropped wf grouped found drafted filled.free

end

/-- A copier that fails after it has copied all rows. -/
def copyAndFail : Copier Memory := fun source destination => do
  copyRows source destination
  throw .cancelled

theorem confined_copyAndFail : Confined copyAndFail := by
  intro source destination m
  apply (wp_bind _ _).2
  exact (confined_copyRows source destination m).mono (fun _ _ h => h) fun _ _ h => h

end GroupedTables.Memory
