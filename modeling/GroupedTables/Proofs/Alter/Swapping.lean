import GroupedTables.Proofs.Alter.Replacement

/-!
# Swapping names

A swap that comes through leaves the new table in the place of the old one. It gets there by
renaming both tables and then removing the old one, while the trial run before it removes
first and renames then; the two come to the same catalog. Once the old table has been moved
away nothing can fail any more, so all there ever is to undo is the new table.
-/

namespace GroupedTables

open GroupedTables.Action Catalog Memory
open scoped Unbounded

/-- The new table under the name it is built under. -/
def Swap.replacement (w : Swap) : Table := { w.definition with name := w.temporaryNew }

/-- A name that is needed for a while is taken. -/
def Swap.Obstructed (w : Swap) (c : Catalog) : Prop :=
  (c.tableNamed? w.temporaryNew).isSome ∨
    ((c.created w.replacement).tableNamed? w.temporaryOld).isSome

namespace Memory

/-- A copier left everything as it was but for rows that it added to its destination. -/
structure AddsRows (m : Memory) (destination : TableName) (m' : Memory) : Prop where
  catalog : m'.catalog = m.catalog
  journal : m'.journal = m.journal
  added : ∀ t, m.catalog.tableNamed? destination = some t → m.rows.rows t.id <+: m'.rows.rows t.id
  others : ∀ k, (∀ t, m.catalog.tableNamed? destination = some t → t.id ≠ k) →
    m'.rows.rows k = m.rows.rows k

/-- A copier does nothing but add rows to its destination, whether it succeeds or fails. -/
def Confined (copier : Copier Memory) : Prop := ∀ source destination m,
  WP (copier source destination) (fun _ => AddsRows m destination)
    (fun _ => AddsRows m destination) m

/-- The memory after a table was created. -/
def building (m : Memory) (definition : Table) : Memory :=
  { m with
    catalog := m.catalog.created definition, journal := m.journal ++ [.created definition.name] }

def renamed (m : Memory) (t : Table) (name : TableName) : Memory :=
  { m with
    catalog := m.catalog.renamed t.id name, journal := m.journal ++ [.renamed t.name name] }

def dropped (m : Memory) (t : Table) : Memory where
  catalog := (m.catalog.removed t.id t).regrouped
  rows := m.rows.truncate t.id
  journal := m.journal ++ [.dropped t.name]

/-- The new table of a swap could be created, and then a copier ended in this way. -/
structure Fills (copier : Copier Memory) (w : Swap) (m : Memory)
    (outcome : EStateM.Result Fault Memory Unit) : Prop where
  free : m.catalog.tableNamed? w.temporaryNew = none
  run : copier w.name w.temporaryNew (m.building w.replacement) = outcome

variable {m m₂ : Memory} {name newName : TableName} {t current d definition : Table}
  {post : TableId → Memory → Prop} {fails : Fault → Memory → Prop} {copier : Copier Memory}

@[simp] theorem alterations_building : (m.building definition).alterations = m.alterations := by
  simp [alterations, building]

@[simp] theorem alterations_renamed : (m.renamed t name).alterations = m.alterations := by
  simp [alterations, renamed]

@[simp] theorem alterations_dropped : (m.dropped t).alterations = m.alterations := by
  simp [alterations, dropped]

theorem wp_createTable
    (taken : (m.catalog.tableNamed? definition.name).isSome → ∀ f, f.Foreseen → fails f m)
    (ok : m.catalog.tableNamed? definition.name = none →
      post (m.catalog.nextId + 1) (m.building definition)) :
    WP (createTable definition) post fails m := by
  unfold createTable edit
  rw [wp_bind, wp_within, wp_allOrNothing]
  apply Catalog.wp_createTable taken
  intro free
  unfold record
  rw [wp_bind, wp_modify, wp_pure]
  exact ok free

/-- Renaming is refused if the new name is taken, and comes through if it is free. -/
theorem wp_renameTable {post : Unit → Memory → Prop} (numbered : m.catalog.Numbered)
    (named : m.catalog.tableNamed? name = some t)
    (taken : (m.catalog.tableNamed? newName).isSome → ∀ f, f.Foreseen → fails f m)
    (ok : m.catalog.tableNamed? newName = none → post () (m.renamed t newName)) :
    WP (renameTable name newName) post fails m := by
  obtain ⟨there, rfl⟩ := numbered.get?_of_tableNamed? named
  unfold renameTable edit renameNamed requireUnused record
  simp only [wp_bind, wp_within, wp_allOrNothing, wp_get, tableNamed, named, wp_lift_of_ok rfl,
    wp_ite]
  refine ⟨fun present => taken present _ trivial, fun absent => ?_⟩
  have free : m.catalog.tableNamed? newName = none := by simpa using absent
  exact (wp_of_ok (Catalog.renameTable_eq there free)).2 (ok free)

theorem dropTable_eq (intact : m.catalog.Intact) (named : m.catalog.tableNamed? name = some t) :
    dropTable name m = .ok () (m.dropped t) := by
  obtain ⟨there, rfl⟩ := intact.toNumbered.get?_of_tableNamed? named
  apply eq_ok_of_wp
  unfold dropTable edit removeNamed editRows record
  simp only [wp_bind, wp_within, wp_allOrNothing, wp_get, tableNamed, named, wp_lift_of_ok rfl]
  rw [wp_discard]
  apply wp_removeTable intact.toLinked there
  intro _
  exact ⟨trivial, rfl⟩

variable {w : Swap}

/-- A table that was there before the new one keeps its rows while that is filled. -/
theorem AddsRows.rows_eq (h : AddsRows (m.building w.replacement) w.temporaryNew m₂)
    (wf : m.catalog.WellFormed) (free : m.catalog.tableNamed? w.temporaryNew = none) {k : TableId}
    (other : k ≠ m.catalog.nextId + 1) : m₂.rows.rows k = m.rows.rows k := by
  have distinct : (m.catalog.created w.replacement).DistinctNames := wf.distinctNames.created free
  have named := distinct.tableNamed? wf.intact.created.toNumbered get?_created_self
  refine h.others k fun t named' same => other ?_
  cases named.symm.trans named'
  exact same.symm

theorem Fills.addsRows_ok (h : Fills copier w m (.ok () m₂)) (confined : Confined copier) :
    AddsRows (m.building w.replacement) w.temporaryNew m₂ :=
  (confined ..).ok h.run

theorem Fills.addsRows_error {f : Fault} (h : Fills copier w m (.error f m₂))
    (confined : Confined copier) : AddsRows (m.building w.replacement) w.temporaryNew m₂ :=
  (confined ..).error h.run

theorem AddsRows.refl (m : Memory) (destination : TableName) : AddsRows m destination m :=
  ⟨rfl, rfl, fun _ _ => List.prefix_refl _, fun _ _ => rfl⟩

theorem rows_foldl_insert (copied : List Record.RowBytes) (rows : Record.StoredRows)
    (destination k : TableId) :
    (copied.foldl (fun rows row => rows.insert destination row) rows).rows k =
      if k = destination then rows.rows destination ++ copied else rows.rows k := by
  induction copied generalizing rows with
  | nil => by_cases same : k = destination <;> simp [same]
  | cons row rest ih =>
    rw [List.foldl_cons, ih, Record.StoredRows.rows_insert, Record.StoredRows.rows_insert,
      if_pos rfl, List.append_assoc, List.singleton_append]
    split
    · rfl
    · rfl

/-- The rows of a table put behind those of another one. -/
def copied (m : Memory) (source destination : Table) : Memory :=
  { m with
    rows := (m.rows.rows source.id).foldl (fun rows row => rows.insert destination.id row) m.rows }

theorem wp_copyRows {source destination : TableName} {post : Unit → Memory → Prop}
    (foreseen : ∀ f, f.Foreseen → fails f m)
    (ok : ∀ s d, m.catalog.tableNamed? source = some s →
      m.catalog.tableNamed? destination = some d →
      post () (m.copied s d)) : WP (copyRows source destination) post fails m := by
  unfold copyRows editRows
  rw [wp_bind, wp_get, wp_bind, wp_lift]
  refine ⟨fun s found => ?_, fun f failed => foreseen f (foresees_tableNamed _ _ f failed)⟩
  rw [wp_bind, wp_lift]
  exact ⟨fun d found' => ok s d (tableNamed_eq_ok_iff.1 found) (tableNamed_eq_ok_iff.1 found'),
    fun f failed => foreseen f (foresees_tableNamed _ _ f failed)⟩

theorem confined_copyRows : Confined copyRows := by
  intro source destination m
  apply wp_copyRows (fun _ _ => .refl m destination)
  intro s d _ named
  refine ⟨rfl, rfl, fun t named' => ?_, fun k other => ?_⟩
  · cases named.symm.trans named'
    rw [copied, rows_foldl_insert, if_pos rfl]
    exact List.prefix_append ..
  · rw [copied, rows_foldl_insert, if_neg (other d named).symm]

/-- All rows of the old table are put into the new one. -/
theorem run_copyRows (wf : m.catalog.WellFormed)
    (found : m.catalog.tables.get? current.id = some current) (own : w.name = current.name)
    (free : m.catalog.tableNamed? w.temporaryNew = none) :
    copyRows w.name w.temporaryNew (m.building w.replacement) = .ok ()
      ((m.building w.replacement).copied current (m.catalog.newTable w.replacement)) := by
  have intact : (m.catalog.created w.replacement).Intact := wf.intact.created
  have distinct : (m.catalog.created w.replacement).DistinctNames := wf.distinctNames.created free
  have new := distinct.tableNamed? intact.toNumbered get?_created_self
  have old := distinct.tableNamed? intact.toNumbered (found_created wf found)
  rw [← own] at old
  have old' : (m.building w.replacement).catalog.tableNamed w.name = .ok current :=
    tableNamed_eq_ok_iff.2 old
  have new' : (m.building w.replacement).catalog.tableNamed w.temporaryNew =
      .ok (m.catalog.newTable w.replacement) := tableNamed_eq_ok_iff.2 new
  apply eq_ok_of_wp
  unfold copyRows editRows
  rw [wp_bind, wp_get, wp_bind, wp_lift_of_ok old', wp_bind, wp_lift_of_ok new', wp_modify]
  exact ⟨rfl, rfl⟩

theorem Fills.not_error_copyRows {f : Fault} (h : Fills copyRows w m (.error f m₂))
    (wf : m.catalog.WellFormed) (found : m.catalog.tables.get? current.id = some current)
    (own : w.name = current.name) : False := by
  have ended := h.run
  rw [run_copyRows wf found own h.free] at ended
  cases ended

/-- The new table has got the rows of the old one. -/
theorem Fills.rows_copyRows (h : Fills copyRows w m (.ok () m₂)) (wf : m.catalog.WellFormed)
    (found : m.catalog.tables.get? current.id = some current) (own : w.name = current.name) :
    m₂.rows.rows (m.catalog.nextId + 1) =
      m.rows.rows (m.catalog.nextId + 1) ++ m.rows.rows current.id := by
  have ended := h.run
  rw [run_copyRows wf found own h.free] at ended
  cases ended
  exact (rows_foldl_insert ..).trans (if_pos rfl)

/-- Once the old table has been moved away, the new one takes its place, and nothing can fail. -/
theorem wp_moveIn {post : Unit → Memory → Prop} (wf : m.catalog.WellFormed)
    (found : m.catalog.tables.get? current.id = some current) (own : w.name = current.name)
    (free : m.catalog.tableNamed? w.temporaryNew = none)
    (free' : (m.catalog.created w.replacement).tableNamed? w.temporaryOld = none)
    (moved : m₂.catalog = (m.catalog.created w.replacement).renamed current.id w.temporaryOld)
    (ok : ∀ m', m'.catalog = m.catalog.replaced current w.replacement →
      m'.rows = m₂.rows.truncate current.id → m'.alterations = m₂.alterations → post () m') :
    WP (w.moveIn tableActions) post fails m₂ := by
  have intact : (m.catalog.created w.replacement).Intact := wf.intact.created
  have distinct : (m.catalog.created w.replacement).DistinctNames := wf.distinctNames.created free
  have old : (m.catalog.created w.replacement).tables.get? current.id = some current :=
    found_created wf found
  have apart := ne_fresh_of_found wf found
  have distinct' : ((m.catalog.created w.replacement).renamed current.id
      w.temporaryOld).DistinctNames := distinct.renamed free'
  have new : ((m.catalog.created w.replacement).renamed current.id
      w.temporaryOld).tables.get? (m.catalog.nextId + 1) =
      some (m.catalog.newTable w.replacement) :=
    (get?_renamed_of_ne apart.symm).trans get?_created_self
  unfold Swap.moveIn
  rw [wp_bind]
  refine wp_renameTable (moved ▸ intact.renamed.toNumbered)
    (moved ▸ distinct'.tableNamed? intact.renamed.toNumbered new) (fun taken => ?_)
    fun free'' => ?_
  · rw [moved, own, distinct.tableNamed?_renamed old free'] at taken
    cases taken
  rw [moved] at free''
  have swapped : (m₂.renamed (m.catalog.newTable w.replacement) w.name).catalog =
      ((m.catalog.created w.replacement).renamed current.id w.temporaryOld).renamed
        (m.catalog.nextId + 1) w.name :=
    congrArg (Catalog.renamed · (m.catalog.nextId + 1) w.name) moved
  have old' : (((m.catalog.created w.replacement).renamed current.id w.temporaryOld).renamed
      (m.catalog.nextId + 1) w.name).tables.get? current.id =
      some { current with name := w.temporaryOld } :=
    (get?_renamed_of_ne apart).trans (get?_renamed_self old)
  rw [wp_orUndo]
  refine (wp_of_ok (dropTable_eq (swapped ▸ intact.renamed.renamed) (swapped ▸
    (distinct'.renamed free'').tableNamed? intact.renamed.renamed.toNumbered old'))).2 ?_
  refine ok _ ?_ rfl (by simp)
  rw [dropped, swapped, own, removed_renamed, replaced]
  exact congrArg (fun c : Catalog => (c.renamed (m.catalog.nextId + 1) current.name).regrouped)
    (removed_renamed_self rfl)

/-- What comes of a swap. If the new table cannot be created, nothing has happened. If it cannot
be filled or the old one cannot be moved away, the new one is dropped. Once the old one has been
moved away, the swap comes through. -/
theorem wp_execute (wf : m.catalog.WellFormed)
    (found : m.catalog.tables.get? current.id = some current) (own : w.name = current.name)
    (confined : Confined copier)
    (refused : ∀ f, f.Foreseen → w.Obstructed m.catalog → fails f m)
    (withdrawn : ∀ f m₂, (Fills copier w m (.error f m₂) ∨
        Fills copier w m (.ok () m₂) ∧ f.Foreseen ∧ w.Obstructed m.catalog) →
      fails f (m₂.dropped (m.catalog.newTable w.replacement)))
    (swapped : ∀ m₂ m', Fills copier w m (.ok () m₂) →
      m'.catalog = m.catalog.replaced current w.replacement →
      m'.rows = m₂.rows.truncate current.id → m'.alterations = m₂.alterations →
      post (m.catalog.nextId + 1) m') :
    WP (w.execute tableActions copier) post fails m := by
  have intact : (m.catalog.created w.replacement).Intact := wf.intact.created
  have new : (m.catalog.created w.replacement).tables.get? (m.catalog.nextId + 1) =
    some (m.catalog.newTable w.replacement) := get?_created_self
  have old : (m.catalog.created w.replacement).tables.get? current.id = some current :=
    found_created wf found
  unfold Swap.execute
  rw [wp_bind]
  apply wp_createTable (fun taken f foreseen => refused f foreseen (.inl taken))
  intro free
  have distinct : (m.catalog.created w.replacement).DistinctNames := wf.distinctNames.created free
  -- whatever comes in between, dropping the new table comes through
  have undo ⦃m₂ : Memory⦄ (same : m₂.catalog = m.catalog.created w.replacement) :
      tableActions.drop w.temporaryNew m₂ =
        .ok () (m₂.dropped (m.catalog.newTable w.replacement)) := by
    apply dropTable_eq (same ▸ intact)
    rw [same]
    exact distinct.tableNamed? intact.toNumbered new
  rw [wp_bind, wp_orUndo]
  unfold Swap.exchange
  rw [wp_bind]
  have filled := confined w.name w.temporaryNew (m.building w.replacement)
  cases copied : copier w.name w.temporaryNew (m.building w.replacement) with
  | error f m₂ =>
    have same : m₂.catalog = m.catalog.created w.replacement := (filled.error copied).catalog
    exact (wp_of_error copied).2 ((wp_of_ok (undo same)).2 (withdrawn f m₂ (.inl ⟨free, copied⟩)))
  | ok _ m₂ =>
    have same : m₂.catalog = m.catalog.created w.replacement := (filled.ok copied).catalog
    refine (wp_of_ok copied).2 ((wp_bind _ _).2 ?_)
    have named : m₂.catalog.tableNamed? w.name = some current := by
      rw [same, own]
      exact distinct.tableNamed? intact.toNumbered old
    refine wp_renameTable (same ▸ intact.toNumbered) named (fun taken f foreseen => ?_)
      fun free' => ?_
    · rw [same] at taken
      exact (wp_of_ok (undo same)).2
        (withdrawn f m₂ (.inr ⟨⟨free, copied⟩, foreseen, .inr taken⟩))
    rw [same] at free'
    have moved : (m₂.renamed current w.temporaryOld).catalog =
        (m.catalog.created w.replacement).renamed current.id w.temporaryOld :=
      congrArg (Catalog.renamed · current.id w.temporaryOld) same
    rw [wp_orUndo]
    refine wp_moveIn wf found own free free' moved fun m' replaced rows kept => ?_
    exact swapped m₂ m' ⟨free, copied⟩ replaced rows (kept.trans alterations_renamed)

end Memory

end GroupedTables
