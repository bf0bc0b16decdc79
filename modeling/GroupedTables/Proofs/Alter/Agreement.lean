import GroupedTables.Proofs.Alter.Altering

/-!
# Whichever way is taken

In place or by a swap, a plan is refused for the same reasons as long as the names that a swap
needs for a while are free: that it has no cost, that the statement was cancelled, or that its
joins do not fit. So a statement has the same outcome either way. How rows are written anew is a
matter of the settings, and whether a statement can be carried out is not.
-/

namespace GroupedTables

open GroupedTables.Action Catalog Memory
open scoped Unbounded

variable {σ α β : Type} {s t : σ} {config config' : Config} {m : Memory} {current d : Table}
  {target : Staged} {columnChanges indexChanges : List Change} {k : Context}

/-- Both succeed with the same value, or both fail. -/
def EndAlike : EStateM.Result Fault σ α → EStateM.Result Fault σ α → Prop
  | .ok a _, .ok b _ => a = b
  | .error .., .error .. => True
  | _, _ => False

namespace EndAlike

theorem refl (r : EStateM.Result Fault σ α) : EndAlike r r := by
  cases r with
  | ok => exact rfl
  | error => trivial

/-- What is done alike first may be followed by what does not depend on the state. -/
theorem bind {x y : Action σ α} {next next' : α → Action σ β} (first : EndAlike (x s) (y t))
    (rest : ∀ a u v, x s = .ok a u → y t = .ok a v → EndAlike (next a u) (next' a v)) :
    EndAlike ((x >>= next) s) ((y >>= next') t) := by
  change EndAlike (EStateM.bind x next s) (EStateM.bind y next' t)
  unfold EStateM.bind
  cases ended : x s with
  | ok a u =>
    cases ended' : y t with
    | ok b v =>
      obtain rfl : a = b := by rwa [ended, ended'] at first
      exact rest a u v ended ended'
    | error => rw [ended, ended'] at first; exact first.elim
  | error =>
    cases ended' : y t with
    | ok => rw [ended, ended'] at first; exact first.elim
    | error => trivial

/-- What is done first is the same. -/
theorem bind_same {x : Action σ α} {next next' : α → Action σ β}
    (rest : ∀ a u, x s = .ok a u → EndAlike (next a u) (next' a u)) :
    EndAlike ((x >>= next) s) ((x >>= next') s) := by
  apply (EndAlike.refl (x s)).bind
  intro a u v ended ended'
  cases ended.symm.trans ended'
  exact rest a u ended

theorem bind_lift {e : Except Fault α} {next next' : α → Action σ β}
    (rest : ∀ a, e = .ok a → EndAlike (next a s) (next' a s)) :
    EndAlike (((liftM e : Action σ α) >>= next) s) (((liftM e : Action σ α) >>= next') s) := by
  cases e with
  | ok a => exact rest a rfl
  | error => trivial

theorem map {x y : Action σ α} (f : α → β) (h : EndAlike (x s) (y t)) :
    EndAlike ((f <$> x) s) ((f <$> y) t) := by
  rw [← bind_pure_comp, ← bind_pure_comp]
  exact h.bind fun _ _ _ _ _ => rfl

end EndAlike

/-- The names that a swap needs for a while are free in a schema. -/
structure Config.Clear (config : Config) (c : Catalog) (schema : String) : Prop where
  apart : config.temporaryNew ≠ config.temporaryOld
  new : c.tableNamed? ⟨schema, config.temporaryNew⟩ = none
  old : c.tableNamed? ⟨schema, config.temporaryOld⟩ = none

theorem Config.Clear.not_obstructed {c : Catalog} (h : config.Clear c current.name.schema) :
    ¬ (swapOf config current d).Obstructed c := by
  rintro (taken | taken)
  · have free : c.tableNamed? (swapOf config current d).temporaryNew = none := h.new
    rw [free] at taken
    cases taken
  · obtain ⟨t, found⟩ := Option.isSome_iff_exists.1 taken
    have named : t.name = (swapOf config current d).temporaryOld := by
      simpa using List.find?_some found
    obtain ⟨k, there⟩ := OrderedMap.mem_values_iff.1 (List.mem_of_find?_eq_some found)
    rw [get?_created] at there
    split at there
    · cases there
      exact h.apart (congrArg TableName.name named)
    · exact tableNamed?_eq_none_iff.1 h.old there named

namespace Memory

/-- Where no name is taken, a plan is carried out just if it is sound. -/
theorem wp_alterTable_sound (wf : m.catalog.WellFormed) (apart : m.catalog.SequencesApart)
    (found : m.catalog.tables.get? current.id = some current)
    (fits : target.Fits m.catalog current)
    (planned : target.catalog.tables.get? current.id = some d)
    (clear : config.Clear m.catalog current.name.schema) :
    WP (alterTable config copyRows current.name target columnChanges indexChanges)
      (fun level _ => Sound m.catalog current d target columnChanges indexChanges k level)
      (fun _ _ => ∀ level, ¬ Sound m.catalog current d target columnChanges indexChanges k level)
      ⟨m, k⟩ := by
  refine wp_alterTable wf found fits planned confined_copyRows (fun f k' unsound => ?_) ?_
    (fun level m' k' ⟨_, sound⟩ _ => sound) fun level m₂ m' k' _ _ sound _ => sound
  · exact (unsound apart).2.resolve_left fun ⟨_, taken⟩ => clear.not_obstructed taken
  · rintro f m₂ k' _ (filled | ⟨_, _, taken⟩)
    · exact (filled.not_error_copyRows wf found rfl).elim
    · exact (clear.not_obstructed taken).elim

theorem endAlike_alterTable (wf : m.catalog.WellFormed) (apart : m.catalog.SequencesApart)
    (found : m.catalog.tables.get? current.id = some current)
    (fits : target.Fits m.catalog current)
    (clear : config.Clear m.catalog current.name.schema)
    (clear' : config'.Clear m.catalog current.name.schema) :
    EndAlike (alterTable config copyRows current.name target columnChanges indexChanges ⟨m, k⟩)
      (alterTable config' copyRows current.name target columnChanges indexChanges ⟨m, k⟩) := by
  obtain ⟨d, planned, _⟩ := fits.drafts.itself
  have sound ⦃config : Config⦄ (clear : config.Clear m.catalog current.name.schema) :
      WP (alterTable config copyRows current.name target columnChanges indexChanges)
        (fun level _ => Sound m.catalog current d target columnChanges indexChanges k level)
        (fun _ _ => ∀ level, ¬ Sound m.catalog current d target columnChanges indexChanges k level)
        ⟨m, k⟩ := wp_alterTable_sound wf apart found fits planned clear
  cases ended : alterTable config copyRows current.name target columnChanges indexChanges
    ⟨m, k⟩ with
  | ok level =>
    have carried := (sound clear).ok ended
    cases ended' : alterTable config' copyRows current.name target columnChanges indexChanges
      ⟨m, k⟩ with
    | ok => exact Except.ok.inj (carried.cost.symm.trans ((sound clear').ok ended').cost)
    | error => exact (sound clear').error ended' _ carried
  | error =>
    have refused := (sound clear).error ended
    cases ended' : alterTable config' copyRows current.name target columnChanges indexChanges
      ⟨m, k⟩ with
    | ok => exact refused _ ((sound clear').ok ended')
    | error => trivial

end Memory

namespace Planner

variable {p : Planner Memory}

variable (wf : m.catalog.WellFormed) (apart : m.catalog.SequencesApart)

include wf apart

theorem endAlike_alterElements (found : m.catalog.tables.get? current.id = some current)
    (clear : config.Clear m.catalog current.name.schema)
    (clear' : config'.Clear m.catalog current.name.schema) (elements : List Element) :
    EndAlike ((p.over config).alterElements m.catalog current.id elements ⟨m, k⟩)
      ((p.over config').alterElements m.catalog current.id elements ⟨m, k⟩) := by
  unfold alterElements
  rw [table_of_get? found]
  apply EndAlike.bind_lift
  intro t same
  cases same
  apply EndAlike.bind_lift
  intro route _
  cases route with
  | rename newName => exact EndAlike.bind_same fun _ _ _ => EndAlike.refl _
  | unsupported => exact EndAlike.refl _
  | edit e =>
    simp only [plan_over]
    apply EndAlike.bind_same
    intro plan r ran
    have planned : WP (Run.onContext (p.plan m.catalog current.id current e))
        (fun plan r => plan.staged.Fits m.catalog current ∧ r.state = m) (fun _ _ => True) ⟨m, k⟩ :=
      wp_within.2 ((p.wp_plan wf found e k).mono (fun _ _ ⟨fits, _⟩ => ⟨fits, rfl⟩)
        fun _ _ _ => trivial)
    obtain ⟨fits, same⟩ := planned.ok ran
    obtain ⟨_, k'⟩ := r
    obtain rfl : _ = m := same
    exact (endAlike_alterTable wf apart found fits clear clear').bind fun _ _ _ _ _ => rfl

theorem endAlike_alterWhole (found : m.catalog.tables.get? current.id = some current)
    (clear : config.Clear m.catalog current.name.schema)
    (clear' : config'.Clear m.catalog current.name.schema) (s : AlterTable)
    (elements : List Element) :
    EndAlike ((p.over config).alterWhole m.catalog current.id s elements ⟨m, k⟩)
      ((p.over config').alterWhole m.catalog current.id s elements ⟨m, k⟩) := by
  unfold alterWhole
  apply (endAlike_alterElements wf apart found clear clear' elements).bind
  intro level _ _ _ _
  cases level with
  | some level => exact rfl
  | none => trivial

/-- A statement about a table ends alike whichever way tables are rewritten. -/
theorem endAlike_alterStatement (s : AlterTable)
    (clear : config.Clear m.catalog (s.table.resolve p.schema).schema)
    (clear' : config'.Clear m.catalog (s.table.resolve p.schema).schema) :
    EndAlike ((p.over config).alterTable s ⟨m, k⟩) ((p.over config').alterTable s ⟨m, k⟩) := by
  unfold Planner.alterTable
  apply EndAlike.bind_same
  intro r u ran
  cases ran
  apply EndAlike.bind_lift
  intro current named
  obtain ⟨found, same⟩ := wf.numbered.get?_of_tableNamed? (tableNamed_eq_ok_iff.1 named)
  have same : current.name = s.table.resolve p.schema := same
  rw [← same] at clear clear'
  cases operation : s.operation with
  | statistics index =>
    cases index with
    | none => exact EndAlike.refl _
    | some index => exact EndAlike.refl _
  | truncate cascade => exact EndAlike.refl _
  | elements elements => exact (endAlike_alterWhole wf apart found clear clear' s elements).map some

/-- A statement about a group ends alike whichever way tables are rewritten. -/
theorem endAlike_alterGroup (s : AlterGroup)
    (clear : config.Clear m.catalog (s.table.resolve p.schema).schema)
    (clear' : config'.Clear m.catalog (s.table.resolve p.schema).schema) :
    EndAlike ((p.over config).alterGroup s ⟨m, k⟩) ((p.over config').alterGroup s ⟨m, k⟩) := by
  unfold Planner.alterGroup
  apply EndAlike.bind_same
  intro r u ran
  cases ran
  apply EndAlike.bind_lift
  intro current named
  obtain ⟨found, same⟩ := wf.numbered.get?_of_tableNamed? (tableNamed_eq_ok_iff.1 named)
  have same : current.name = s.table.resolve p.schema := same
  rw [← same] at clear clear'
  exact endAlike_alterWhole wf apart found clear clear' _ _

end Planner

end GroupedTables
