import GroupedTables.Proofs.Alter.Swapping

/-!
# What the backend makes of a plan

Whichever way a plan is carried out, it is carried out as a whole or refused. The trial run
of a swap foretells whether the new table can take over, so the take-over at the end of a
swap that came through is not refused any more.
-/

namespace GroupedTables

open GroupedTables.Action Catalog Memory
open scoped Unbounded

variable {live : Catalog} {current d : Table} {target : Staged} {config : Config} {m : Memory}
  {copier : Copier Memory} {columnChanges indexChanges : List Change}

namespace Level

theorem foresees_checkColumnChange {before after : Table} (change : Change) :
    Check.Foresees (checkColumnChange before after change) := by
  unfold checkColumnChange
  dsimp only
  split
  · exact Check.limits_error trivial
  · split
    · exact Check.limits_error trivial
    · exact Check.limits_ok _

theorem foresees_checkIndexChange {before after : Table} (change : Change) :
    Check.Foresees (checkIndexChange before after change) :=
  Check.Limits.ite (fun _ => Check.limits_ok _) fun _ => Check.limits_error trivial

theorem foresees_classify (wf : live.WellFormed)
    (found : live.tables.get? current.id = some current) (fits : target.Fits live current)
    (planned : target.catalog.tables.get? current.id = some d) :
    Check.Foresees (classify live current.id target columnChanges indexChanges) := by
  have linked := fits.drafts.intact.toLinked
  have defined := fits.definition_eq planned
  unfold classify
  rw [table_of_get? found, defined]
  refine Check.Limits.bind (Check.limits_ok _) fun before same => ?_
  cases same
  refine Check.Limits.bind (Check.limits_ok _) fun after same => ?_
  cases same
  refine Check.Limits.bind (Check.Limits.forM fun change _ => foresees_checkColumnChange change)
    fun _ _ => ?_
  refine Check.Limits.bind (Check.Limits.forM fun change _ => foresees_checkIndexChange change)
    fun _ _ => ?_
  rw [ofGrouping, fits.table, wf.intact.toLinked.parentJoin_eq ⟨current, found⟩,
    linked.parentJoin_eq ⟨d, planned⟩]
  exact Check.limits_ok _

end Level

/-- A plan that nothing is wrong with: it has a cost, the statement was not cancelled, and the
joins of the draft fit. -/
structure Sound (live : Catalog) (current d : Table) (target : Staged)
    (columnChanges indexChanges : List Change) (k : Context) (level : Level) : Prop where
  cost : Level.classify live current.id target columnChanges indexChanges = .ok level
  goes : ∃ k', Context.checkCancelled k = .ok () k'
  fit : Attachable live target.catalog current d

namespace Memory

variable {fails : Fault → Memory → Prop}

abbrev swapOf (config : Config) (current d : Table) : Swap := .ofConfig config current.name d

/-- The trial run foretells what the take-over comes to on the catalog that the swap leads to. -/
theorem wp_rehearse_foretells (config : Config) (wf : live.WellFormed)
    (found : live.tables.get? current.id = some current) (fits : target.Fits live current)
    (planned : target.catalog.tables.get? current.id = some d) :
    WP (rehearse config current.name target)
      (fun _ _ => ∃ c, takeOver (live.nextId + 1) target
          (live.replaced current (swapOf config current d).replacement) = .ok () c ∧
        Committed live target.catalog current d (live.nextId + 1) c ∧
        Attachable live target.catalog current d)
      (fun f _ => f.Foreseen ∧ ((swapOf config current d).Obstructed live ∨
        ¬ Attachable live target.catalog current d)) live := by
  have placed : Placed live target.catalog current d (live.nextId + 1)
      (live.replaced current (swapOf config current d).replacement) :=
    placed_replaced wf found (fits.drafts.drafted planned)
  have taken := placed.wp_takeOver fits planned wf found (spent_replaced wf found)
  refine wp_rehearse wf found (fits.definition_eq planned)
    (fun taken f foreseen => ⟨foreseen, .inl (.inl taken)⟩) ?_
  cases ended : takeOver (live.nextId + 1) target
      (live.replaced current (swapOf config current d).replacement) with
  | ok _ c => exact (wp_of_ok ended).2 ⟨c, rfl, taken.ok ended⟩
  | error f c =>
    obtain ⟨foreseen, unfit⟩ := taken.error ended
    exact (wp_of_error ended).2 ⟨foreseen, .inr unfit⟩

theorem wp_check {α : Type} {act : Edit α} {post : Unit → Memory → Prop}
    (refused : ∀ f c, act m.catalog = .error f c → fails f m)
    (ok : ∀ a c, act m.catalog = .ok a c → post () m) : WP (check act) post fails m := by
  unfold check
  rw [wp_bind, wp_get]
  cases tried : act m.catalog with
  | ok a c => exact ok a c tried
  | error f c => exact refused f c tried

/-- What comes of a swap with its take-over. -/
theorem wp_swapTable {post : Unit → Memory → Prop} (wf : m.catalog.WellFormed)
    (found : m.catalog.tables.get? current.id = some current)
    (fits : target.Fits m.catalog current)
    (planned : target.catalog.tables.get? current.id = some d) (confined : Confined copier)
    (refused : ∀ f, f.Foreseen → ((swapOf config current d).Obstructed m.catalog ∨
        ¬ Attachable m.catalog target.catalog current d) → fails f m)
    (withdrawn : ∀ f m₂, (Fills copier (swapOf config current d) m (.error f m₂) ∨
        Fills copier (swapOf config current d) m (.ok () m₂) ∧ f.Foreseen ∧
          (swapOf config current d).Obstructed m.catalog) →
      fails f (m₂.dropped (m.catalog.newTable (swapOf config current d).replacement)))
    (ok : ∀ m₂ m', Fills copier (swapOf config current d) m (.ok () m₂) →
      Committed m.catalog target.catalog current d (m.catalog.nextId + 1) m'.catalog →
      Attachable m.catalog target.catalog current d →
      m'.rows = m₂.rows.truncate current.id → m'.alterations = m₂.alterations → post () m') :
    WP (swapTable config copier current.name target) post fails m := by
  have defined := fits.definition_eq planned
  have foretold := wp_rehearse_foretells config wf found fits planned
  unfold swapTable
  rw [wp_bind]
  refine wp_check (fun f c failed => ?_) fun _ c tried => ?_
  · obtain ⟨foreseen, unsound⟩ := foretold.error failed
    exact refused f foreseen unsound
  obtain ⟨c', succeeds, committed, fit⟩ := foretold.ok tried
  rw [wp_bind, wp_lift_of_ok defined]
  apply (wp_bind _ _).2
  refine wp_execute wf found rfl confined
    (fun f foreseen taken => refused f foreseen (.inl taken)) withdrawn
    fun m₂ m' copied same rows kept => ?_
  rw [← same] at succeeds
  unfold edit
  rw [wp_within, wp_allOrNothing, wp_of_ok succeeds]
  exact ok m₂ _ copied committed fit rows kept

/-- The definition is replaced as a whole or not at all. -/
theorem wp_edit_replaceDefinition {post : Unit → Memory → Prop} (wf : m.catalog.WellFormed)
    (found : m.catalog.tables.get? current.id = some current)
    (fits : target.Fits m.catalog current)
    (planned : target.catalog.tables.get? current.id = some d)
    (refused : ∀ f, (m.catalog.SequencesApart →
      f.Foreseen ∧ ¬ Attachable m.catalog target.catalog current d) → fails f m)
    (ok : ∀ c', Committed m.catalog target.catalog current d current.id c' →
      Attachable m.catalog target.catalog current d → post () { m with catalog := c' }) :
    WP (edit (replaceDefinition current.id target)) post fails m := by
  unfold edit
  rw [wp_within, wp_allOrNothing]
  have replaced := wp_replaceDefinition fits planned wf found
  cases ended : replaceDefinition current.id target m.catalog with
  | ok _ c' =>
    obtain ⟨committed, fit⟩ := replaced.ok ended
    exact (wp_of_ok ended).2 (ok c' committed fit)
  | error f c' => exact (wp_of_error ended).2 (refused f (replaced.error ended))

/-- What comes of a plan. One that is sound is refused only if a swap finds a name taken. -/
theorem wp_alterTable {post : Level → Run Memory → Prop} {fails : Fault → Run Memory → Prop}
    {k : Context} (wf : m.catalog.WellFormed)
    (found : m.catalog.tables.get? current.id = some current)
    (fits : target.Fits m.catalog current)
    (planned : target.catalog.tables.get? current.id = some d) (confined : Confined copier)
    (refused : ∀ f k', (m.catalog.SequencesApart → f.Foreseen ∧
      ((config.strategy = .copyAndSwap ∧ (swapOf config current d).Obstructed m.catalog) ∨
        ∀ level, ¬ Sound m.catalog current d target columnChanges indexChanges k level)) →
      fails f ⟨m, k'⟩)
    (withdrawn : ∀ f m₂ k', config.strategy = .copyAndSwap →
      (Fills copier (swapOf config current d) m (.error f m₂) ∨
        Fills copier (swapOf config current d) m (.ok () m₂) ∧ f.Foreseen ∧
          (swapOf config current d).Obstructed m.catalog) →
      fails f ⟨m₂.dropped (m.catalog.newTable (swapOf config current d).replacement), k'⟩)
    (inPlace : ∀ level m' k', Committed m.catalog target.catalog current d current.id m'.catalog ∧
        Sound m.catalog current d target columnChanges indexChanges k level →
      m'.rows = m.rows → post level ⟨m', k'⟩)
    (swapped : ∀ level m₂ m' k', Fills copier (swapOf config current d) m (.ok () m₂) →
      Committed m.catalog target.catalog current d (m.catalog.nextId + 1) m'.catalog →
      Sound m.catalog current d target columnChanges indexChanges k level →
      m'.rows = m₂.rows.truncate current.id → post level ⟨m', k'⟩) :
    WP (alterTable config copier current.name target columnChanges indexChanges) post fails
      ⟨m, k⟩ := by
  unfold alterTable
  rw [wp_bind, wp_get, wp_bind, wp_lift_of_ok (wf.tableNamed_eq found), wp_bind, wp_lift]
  refine ⟨fun level cost => ?_, fun f failed => refused f k fun _ =>
    ⟨Level.foresees_classify wf found fits planned f failed, .inr fun level sound => ?_⟩⟩
  case refine_2 => exact nomatch failed.symm.trans sound.cost
  rw [wp_bind]
  unfold Run.onContext
  rw [wp_within]
  cases stopped : Context.checkCancelled k with
  | error f k' =>
    refine (wp_of_error stopped).2 (refused f k' fun _ => ⟨?_, .inr fun level sound => ?_⟩)
    · have ended : WP Context.checkCancelled (fun _ _ => True) (fun f _ => f.Foreseen) k :=
        Context.wp_checkCancelled (fun _ _ => id) fun _ => trivial
      exact ended.error stopped
    · obtain ⟨_, goes⟩ := sound.goes
      exact nomatch stopped.symm.trans goes
  | ok _ k' =>
    rw [wp_of_ok stopped, wp_bind]
    have sound (fit : Attachable m.catalog target.catalog current d) :
        Sound m.catalog current d target columnChanges indexChanges k level :=
      ⟨cost, ⟨k', stopped⟩, fit⟩
    unfold Run.onState
    rw [wp_within]
    refine wp_ite.2 ⟨fun chosen => (wp_bind _ _).2 ?_, fun _ => (wp_bind _ _).2 ?_⟩
    · refine wp_swapTable wf found fits planned confined (fun f foreseen unsound => ?_)
        (fun f m₂ => withdrawn f m₂ k' chosen.1) ?_
      · refine refused f k' fun _ => ⟨foreseen, unsound.imp (fun taken => ⟨chosen.1, taken⟩) ?_⟩
        exact fun unfit level sound => unfit sound.fit
      intro m₂ m' copied committed fit rows _
      unfold record
      rw [wp_modify, wp_pure]
      exact swapped level m₂ _ k' copied committed (sound fit) rows
    · refine wp_edit_replaceDefinition wf found fits planned (fun f unfit => ?_) ?_
      · refine refused f k' fun apart => ⟨(unfit apart).1, .inr fun level sound => ?_⟩
        exact (unfit apart).2 sound.fit
      intro c' committed fit
      unfold record
      rw [wp_modify, wp_pure]
      exact inPlace level _ k' ⟨committed, sound fit⟩ rfl

def stockedShop : Memory where
  catalog := Catalog.shop
  rows := ({} : Record.StoredRows).insert 1 [7]

end Memory

/-- A planner for tables in memory that are altered with some settings. -/
def Planner.over [Numbering] (p : Planner Memory) (config : Config) : Planner Memory :=
  { p with backend := Memory.backend config copyRows }

/-- Planning does not depend on how a plan is carried out. -/
theorem Planner.plan_over {p : Planner Memory} : (p.over config).plan = p.plan := rfl

/-- A planner for the shop that has tables rewritten by a swap. -/
def Planner.swapping [Numbering] : Planner Memory where
  backend := Memory.backend { strategy := .copyAndSwap } copyRows
  schema := "shop"

end GroupedTables
