import GroupedTables.Proofs.Alter.Altering

/-!
# Cancelled statements

The first thing that planning does is to look whether the statement was cancelled, so a statement
that was cancelled before it runs is stopped there, with nothing done. Two forms of a statement are
never planned: truncation, and another name for the table. The backend is asked for them at once,
and nobody looks; what comes of them is the same for every context.
-/

namespace GroupedTables

open GroupedTables.Action

variable {k : Context}

/-- Every check of a statement finds it cancelled from now on. -/
def Context.IsCancelled (k : Context) : Prop := k.cancelledAt (k.checks + 1) = true

theorem Context.isCancelled_cancelled : Context.cancelled.IsCancelled := rfl

theorem Context.checkCancelled_of_isCancelled (cancelled : k.IsCancelled) :
    Context.checkCancelled k = .error .cancelled { k with checks := k.checks + 1 } := by
  have outcome : WP Context.checkCancelled (fun _ _ => False)
      (fun f k' => f = .cancelled ∧ k' = { k with checks := k.checks + 1 }) k := by
    unfold Context.checkCancelled
    simp only [wp_bind, wp_modify, wp_get, wp_ite]
    exact ⟨fun _ => ⟨rfl, rfl⟩, fun alive => alive cancelled⟩
  obtain ⟨_, _, stopped, rfl, rfl⟩ := exists_error_of_wp outcome
  exact stopped

/-- Whether an operation changes something without being planned. -/
def Operation.Unplanned : Operation → Prop
  | .statistics _ => False
  | .truncate _ => True
  | .elements asked => ∃ newName, .renameTable newName ∈ asked

namespace Route

variable {t : Table} {e e' : Edits} {elements : List Element} {newName : QualifiedName}

theorem mem_of_rename (route : ofElementsFrom t e elements = .ok (.rename newName)) :
    .renameTable newName ∈ elements := by
  induction elements generalizing e with
  | nil => cases route
  | cons element rest ih =>
    cases element with
    | renameTable => cases route; exact .head _
    | other => cases route
    | _ =>
      obtain ⟨_, _, route⟩ := Check.bind_eq_ok.1 route
      exact .tail _ (ih route)

/-- An element that renames the table keeps all others from being planned. -/
theorem ne_edit_of_mem (inside : .renameTable newName ∈ elements) :
    ofElementsFrom t e elements ≠ .ok (.edit e') := by
  intro route
  induction elements generalizing e with
  | nil => cases inside
  | cons element rest ih =>
    cases element with
    | renameTable => cases route
    | other => cases route
    | _ =>
      obtain ⟨_, _, route⟩ := Check.bind_eq_ok.1 route
      obtain inside | inside := List.mem_cons.1 inside
      · cases inside
      · exact ih inside route

theorem unplanned_of_rename (route : ofElements t elements = .ok (.rename newName)) :
    (Operation.elements elements).Unplanned := by
  unfold ofElements at route
  split at route
  · cases route
  · exact ⟨newName, mem_of_rename route⟩

theorem ne_edit_of_unplanned (unplanned : (Operation.elements elements).Unplanned) :
    ofElements t elements ≠ .ok (.edit e) := by
  obtain ⟨newName, inside⟩ := unplanned
  unfold ofElements
  split
  · nofun
  · exact ne_edit_of_mem inside

end Route

theorem AlterGroup.planned_elements (s : AlterGroup) :
    ¬ (Operation.elements s.elements).Unplanned := by
  rintro ⟨newName, inside⟩
  cases s with
  | addTable => cases List.mem_singleton.1 inside
  | dropTable => cases List.mem_singleton.1 inside

namespace Planner

variable {σ : Type} {p : Planner σ} {live : Catalog} {id : TableId} {elements : List Element}
  {s : σ}

theorem plan_of_isCancelled (cancelled : k.IsCancelled) (current : Table) (e : Edits) :
    p.plan live id current e k = .error .cancelled { k with checks := k.checks + 1 } := by
  unfold plan
  simp only [bind, EStateM.bind, Context.checkCancelled_of_isCancelled cancelled]

/-- The state of the backend is as it was, however an action ends. -/
abbrev Leaves {α : Type} (act : Action (Run σ) α) (s : σ) (k : Context) : Prop :=
  WP act (fun _ r => r.state = s) (fun _ r => r.state = s) ⟨s, k⟩

/-- A cancelled statement that does not rename its table is stopped before the backend is asked for
anything. -/
theorem leaves_alterWhole (cancelled : k.IsCancelled)
    (planned : ¬ (Operation.elements elements).Unplanned) (statement : AlterTable) :
    Leaves (p.alterWhole live id statement elements) s k := by
  have carried : Leaves (p.alterElements live id elements) s k := by
    unfold Leaves alterElements
    rw [wp_bind, wp_lift]
    refine ⟨fun current _ => ?_, fun _ _ => rfl⟩
    rw [wp_bind, wp_lift]
    refine ⟨fun route sorted => ?_, fun _ _ => rfl⟩
    cases route with
    | rename => exact absurd (Route.unplanned_of_rename sorted) planned
    | unsupported => exact rfl
    | edit e =>
      refine (wp_bind _ _).2 (wp_within.2 ?_)
      exact (wp_of_error (plan_of_isCancelled cancelled current e)).2 rfl
  unfold Leaves alterWhole
  rw [wp_bind]
  apply carried.mono_post
  intro level r same
  cases level <;> exact same

/-- An action ends in the same way in every context, and never looks at it. -/
def Heedless {α : Type} (act : Action (Run σ) α) (s : σ) : Prop :=
  ∃ result s', ∀ k, act.outcome ⟨s, k⟩ = (result, ⟨s', k⟩)

namespace Heedless

variable {α β : Type} {act : Action (Run σ) α} {next : α → Action (Run σ) β}

theorem pure (a : α) : Heedless (Pure.pure a) s := ⟨.ok a, s, fun _ => rfl⟩

theorem throw (f : Fault) : Heedless (throw f : Action (Run σ) α) s :=
  ⟨.error f, s, fun _ => rfl⟩

theorem onState (act : Action σ α) : Heedless (Run.onState act) s := by
  refine ⟨(act.outcome s).1, (act.outcome s).2, fun k => ?_⟩
  unfold outcome Run.onState within
  cases act s <;> rfl

theorem lift (x : Except Fault α) : Heedless (liftM x) s := by
  cases x with
  | ok a => exact .pure a
  | error f => exact .throw f

theorem bind (first : Heedless act s) (rest : ∀ a s, Heedless (next a) s) :
    Heedless (act >>= next) s := by
  obtain ⟨result, s', ended⟩ := first
  have split (k : Context) : (act >>= next).outcome ⟨s, k⟩ =
      match act.outcome ⟨s, k⟩ with
      | (.ok a, r) => (next a).outcome r
      | (.error f, r) => (.error f, r) := by
    simp only [outcome, Bind.bind, EStateM.bind]
    cases act ⟨s, k⟩ <;> rfl
  cases result with
  | ok a =>
    obtain ⟨result', s'', ended'⟩ := rest a s'
    exact ⟨result', s'', fun k => by rw [split, ended]; exact ended' k⟩
  | error f => exact ⟨.error f, s', fun k => by rw [split, ended]⟩

theorem map (g : α → β) (h : Heedless act s) : Heedless (g <$> act) s :=
  h.bind fun a _ => .pure (g a)

/-- What reads the state has one to go on from. -/
theorem get_bind {next : Run σ → Action (Run σ) β}
    (rest : ∃ result s', ∀ k, (next ⟨s, k⟩).outcome ⟨s, k⟩ = (result, ⟨s', k⟩)) :
    Heedless (get >>= next) s := rest

/-- What follows a check follows what was checked. -/
theorem lift_bind {x : Except Fault α} (rest : ∀ a, x = .ok a → Heedless (next a) s) :
    Heedless (liftM x >>= next) s := by
  cases x with
  | ok a => exact rest a rfl
  | error f => exact .throw f

end Heedless

theorem heedless_alterWhole (unplanned : (Operation.elements elements).Unplanned)
    (statement : AlterTable) : Heedless (p.alterWhole live id statement elements) s := by
  refine .bind ?_ fun level s => ?_
  · refine .bind (.lift _) fun current s => ?_
    refine .lift_bind fun route sorted => ?_
    cases route with
    | rename newName => exact .bind (.onState _) fun _ s => .pure _
    | unsupported => exact .pure none
    | edit e => exact absurd sorted (Route.ne_edit_of_unplanned unplanned)
  · cases level with
    | some level => exact .pure level
    | none => exact .throw _

end Planner

/-- The catalog and all rows are as they were. -/
structure Memory.Untouched (m m' : Memory) : Prop where
  catalog : m'.catalog = m.catalog
  rows : m'.rows = m.rows

/-- A planner for tables in memory, with any copier. -/
def Planner.backed (p : Planner Memory) (config : Config) (copier : Copier Memory) :
    Planner Memory :=
  { p with backend := Memory.backend config copier }

namespace Memory

variable {m : Memory} {p : Planner Memory} {config : Config} {copier : Copier Memory}

theorem Untouched.of_leaves {α : Type} {act : Action (Run Memory) α}
    (h : Planner.Leaves act m k) : Untouched m (act.outcome ⟨m, k⟩).2.state := by
  have same : (act.outcome ⟨m, k⟩).2.state = m := WP.leaves h
  exact ⟨congrArg Memory.catalog same, congrArg Memory.rows same⟩

/-- Gathering statistics touches neither the catalog nor rows. -/
theorem wp_gatherStatistics_untouched (name : TableName) (indexes : Option (List String)) :
    WP (Run.onState (gatherStatistics name indexes)) (fun _ r => Untouched m r.state)
      (fun _ r => Untouched m r.state) ⟨m, k⟩ := by
  refine wp_within.2 ?_
  unfold gatherStatistics
  rw [wp_bind, wp_get, wp_bind, wp_lift]
  exact ⟨fun _ _ => ⟨rfl, rfl⟩, fun _ _ => ⟨rfl, rfl⟩⟩

theorem untouched_alterTable (cancelled : k.IsCancelled) (s : AlterTable)
    (planned : ¬ s.operation.Unplanned) :
    Untouched m (((p.backed config copier).alterTable s).outcome ⟨m, k⟩).2.state := by
  have outcome : WP ((p.backed config copier).alterTable s) (fun _ r => Untouched m r.state)
      (fun _ r => Untouched m r.state) ⟨m, k⟩ := by
    unfold Planner.alterTable
    rw [wp_bind, wp_get, wp_bind, wp_lift]
    refine ⟨fun t _ => ?_, fun _ _ => ⟨rfl, rfl⟩⟩
    cases operation : s.operation with
    | statistics index =>
      cases index with
      | none => exact (wp_bind _ _).2 (wp_gatherStatistics_untouched _ none)
      | some index =>
        refine wp_ite.2 ⟨fun _ => ⟨rfl, rfl⟩, fun _ => (wp_bind _ _).2 ?_⟩
        exact wp_gatherStatistics_untouched _ _
    | truncate cascade =>
      rw [operation] at planned
      exact absurd trivial planned
    | elements elements =>
      rw [operation] at planned
      refine (wp_map _).2 ((Planner.leaves_alterWhole cancelled planned s).mono ?_ ?_)
      · rintro _ _ rfl
        exact ⟨rfl, rfl⟩
      · rintro _ _ rfl
        exact ⟨rfl, rfl⟩
  exact outcome.leaves

theorem untouched_alterGroup (cancelled : k.IsCancelled) (s : AlterGroup) :
    Untouched m (((p.backed config copier).alterGroup s).outcome ⟨m, k⟩).2.state := by
  have left : Planner.Leaves ((p.backed config copier).alterGroup s) m k := by
    unfold Planner.Leaves Planner.alterGroup
    rw [wp_bind, wp_get, wp_bind, wp_lift]
    exact ⟨fun t _ => Planner.leaves_alterWhole cancelled s.planned_elements _, fun _ _ => rfl⟩
  exact .of_leaves left

theorem heedless_alterTable (s : AlterTable) (unplanned : s.operation.Unplanned) :
    Planner.Heedless ((p.backed config copier).alterTable s) m := by
  unfold Planner.alterTable
  apply Planner.Heedless.get_bind
  dsimp only
  refine Planner.Heedless.bind (.lift _) fun t m => ?_
  cases operation : s.operation with
  | statistics index =>
    rw [operation] at unplanned
    exact unplanned.elim
  | truncate cascade => exact .bind (.onState _) fun _ m => .pure none
  | elements elements =>
    rw [operation] at unplanned
    exact .map some (Planner.heedless_alterWhole unplanned s)

/-- A statement that was cancelled before it is run changes neither the catalog nor any row, whether
it fails or not, if it is about a group, gathers statistics or is planned. A statement that removes
rows or renames the table without being planned comes to the same in every context. -/
theorem untouched_of_isCancelled (p : Planner Memory) (config : Config) (copier : Copier Memory)
    (m : Memory) (cancelled : k.IsCancelled) :
    (∀ s, Untouched m (((p.backed config copier).alterGroup s).outcome ⟨m, k⟩).2.state) ∧
    ∀ s, (¬ s.operation.Unplanned →
        Untouched m (((p.backed config copier).alterTable s).outcome ⟨m, k⟩).2.state) ∧
      (s.operation.Unplanned → Planner.Heedless ((p.backed config copier).alterTable s) m) :=
  ⟨untouched_alterGroup cancelled, fun s => ⟨untouched_alterTable cancelled s,
    heedless_alterTable s⟩⟩

/-- Dropping a column of the orders of the shop, cancelled before it is run. -/
theorem untouched_of_isCancelled_shop :
    Context.cancelled.IsCancelled ∧
    Untouched stockedShop (((Planner.swapping.backed {} copyRows).alterTable
      ⟨⟨none, "order"⟩, .elements [.dropColumn "customer"]⟩).outcome
        ⟨stockedShop, .cancelled⟩).2.state :=
  ⟨rfl, ((untouched_of_isCancelled Planner.swapping {} copyRows stockedShop
    Context.isCancelled_cancelled).2 _).1 fun ⟨_, inside⟩ => by cases List.mem_singleton.1 inside⟩

/-- Cancelled statements all the same rename the orders of the shop, and remove the rows of its
customers. -/
theorem not_untouched_of_unplanned :
    Context.cancelled.IsCancelled ∧
    ¬ Untouched stockedShop (((Planner.swapping.backed {} copyRows).alterTable
      ⟨⟨none, "order"⟩, .elements [.renameTable ⟨none, "sale"⟩]⟩).outcome
        ⟨stockedShop, .cancelled⟩).2.state ∧
    ¬ Untouched stockedShop (((Planner.swapping.backed {} copyRows).alterTable
      ⟨⟨none, "customer"⟩, .truncate false⟩).outcome ⟨stockedShop, .cancelled⟩).2.state := by
  refine ⟨rfl, fun h => ?_, fun h => ?_⟩
  · have named := congrArg (fun c => (c.tableNamed? ⟨"shop", "order"⟩).isSome) h.catalog
    exact absurd named (by decide +kernel)
  · have stored := congrArg (·.rows 1) h.rows
    exact absurd stored (by decide +kernel)

end Memory

end GroupedTables
