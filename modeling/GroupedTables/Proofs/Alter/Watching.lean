import GroupedTables.Proofs.Alter.Altering
import GroupedTables.Proofs.Alter.Directories

/-!
# Swaps in a directory where calls are refused

In any directory a swap ends with the new table in the place of the old one or with every name
standing for what it stood for.

Calls can also fail for reasons of their own. To say so, calls are watched: one of them, it does
not matter which, is refused although it could be carried out, and the fault of each call that
fails is noted. What is undone is undone by calls as well, and they come after the failure; that
nothing but the failure itself is noted in the end says that all of them succeeded.
-/

namespace GroupedTables

open GroupedTables.Action
open scoped Unbounded

variable {σ α : Type} {tables : TableActions σ} {copier : Copier σ}

/-- A state in which calls are watched. -/
structure Watched (σ : Type) where
  state : σ
  /-- How many calls come before the one that is refused, if one is to be refused at all. -/
  patience : Option Nat := none
  /-- The faults of the calls that failed. -/
  faults : List Fault := []

/-- A call under watch. It is refused if its turn has come, and else it is carried out; after a
failure none is refused any more. -/
def Action.watched (refusal : Fault) (act : Action σ α) : Action (Watched σ) α := fun s =>
  if s.patience = some 0 then
    .error refusal { s with patience := none, faults := s.faults ++ [refusal] }
  else
    match act s.state with
    | .ok a t => .ok a { s with state := t, patience := s.patience.map Nat.pred }
    | .error f t => .error f { state := t, patience := none, faults := s.faults ++ [f] }

def TableActions.watched (refusal : Fault) (tables : TableActions σ) :
    TableActions (Watched σ) where
  create definition := (tables.create definition).watched refusal
  rename name newName := (tables.rename name newName).watched refusal
  drop name := (tables.drop name).watched refusal

def Copier.watched (refusal : Fault) (copier : Copier σ) : Copier (Watched σ) :=
  fun source destination => (copier source destination).watched refusal

variable {act : Action σ α} {refusal : Fault} {s : Watched σ}

theorem wp_watched {post : α → Watched σ → Prop} {fails : Fault → Watched σ → Prop}
    (refused : s.patience = some 0 →
      fails refusal { s with patience := none, faults := s.faults ++ [refusal] })
    (done : WP act (fun a t => post a { s with state := t, patience := s.patience.map Nat.pred })
      (fun f t => fails f { state := t, patience := none, faults := s.faults ++ [f] }) s.state) :
    WP (act.watched refusal) post fails s := by
  unfold WP Action.watched
  by_cases turn : s.patience = some 0
  · simpa only [if_pos turn] using refused turn
  · unfold WP at done
    cases ended : act s.state <;> simpa only [if_neg turn, ended] using done

/-- An action under watch does what the other one does as long as nothing is refused. -/
def Mirrors (act : Action σ α) (act' : Action (Watched σ) α) : Prop :=
  ∀ s faults, WP act (fun a t => ∃ faults', act' ⟨s, none, faults⟩ = .ok a ⟨t, none, faults'⟩)
    (fun f t => ∃ faults', act' ⟨s, none, faults⟩ = .error f ⟨t, none, faults'⟩) s

namespace Mirrors

variable {β : Type} {act' : Action (Watched σ) α}

theorem watched (refusal : Fault) (act : Action σ α) : Mirrors act (act.watched refusal) := by
  intro s faults
  unfold WP Action.watched
  cases act s with
  | ok a t => exact ⟨_, rfl⟩
  | error f t => exact ⟨_, rfl⟩

theorem pure (a : α) : Mirrors (pure a : Action σ α) (pure a) := fun _ faults => ⟨faults, rfl⟩

theorem bind {next : α → Action σ β} {next' : α → Action (Watched σ) β} (first : Mirrors act act')
    (rest : ∀ a, Mirrors (next a) (next' a)) : Mirrors (act >>= next) (act' >>= next') := by
  intro s faults
  rw [wp_bind]
  refine (first s faults).mono ?_ ?_
  · rintro a t ⟨faults', same⟩
    simpa only [Bind.bind, EStateM.bind, same] using rest a t faults'
  · rintro f t ⟨faults', same⟩
    exact ⟨faults', by simp only [Bind.bind, EStateM.bind, same]⟩

theorem orUndo {undo : Action σ Unit} {undo' : Action (Watched σ) Unit} (first : Mirrors act act')
    (back : Mirrors undo undo') : Mirrors (act.orUndo undo) (act'.orUndo undo') := by
  intro s faults
  rw [wp_orUndo]
  refine (first s faults).mono ?_ ?_
  · rintro a t ⟨faults', same⟩
    exact ⟨faults', by simp only [Action.orUndo, same]⟩
  · rintro f t ⟨faults', same⟩
    refine (back t faults').mono ?_ ?_
    · rintro _ u ⟨faults'', same'⟩
      exact ⟨faults'', by simp only [Action.orUndo, same, same']⟩
    · rintro _ u ⟨faults'', same'⟩
      exact ⟨faults'', by simp only [Action.orUndo, same, same']⟩

/-- What holds under watch while nothing is refused holds as well when nobody watches. -/
theorem wp {post : α → σ → Prop} {fails : Fault → σ → Prop} {s : σ} (h : Mirrors act act')
    (holds : WP act' (fun a t => post a t.state) (fun f t => fails f t.state) { state := s }) :
    WP act post fails s := by
  refine (h s []).mono ?_ ?_
  · rintro a t ⟨_, ended⟩
    exact holds.ok ended
  · rintro f t ⟨_, ended⟩
    exact holds.error ended

end Mirrors

theorem Swap.mirrors_execute (w : Swap) :
    Mirrors (w.execute tables copier)
      (w.execute (tables.watched refusal) (copier.watched refusal)) := by
  have moveIn : Mirrors (w.moveIn tables) (w.moveIn (tables.watched refusal)) :=
    .bind (.watched _ _) fun _ => .orUndo (.watched _ _) (.watched _ _)
  have exchange : Mirrors (w.exchange tables copier)
      (w.exchange (tables.watched refusal) (copier.watched refusal)) :=
    .bind (.watched _ _) fun _ => .bind (.watched _ _) fun _ => .orUndo moveIn (.watched _ _)
  exact .bind (.watched _ _) fun id => .bind (.orUndo exchange (.watched _ _)) fun _ => .pure id

namespace Directory

variable (dir : Directory tables) {names names' : Names} {f : Fault} {a b : TableName}

/-- What a directory under watch shows: what the names stand for, and what has been noted. After
a failure there is nothing left to refuse. -/
structure Shows (names : Names) (faults : List Fault) (s : Watched σ) : Prop where
  valid : dir.Valid s.state
  reads : dir.names s.state = names
  noted : s.faults = faults
  settled : faults ≠ [] → s.patience = none

variable {dir} {granted : α → Prop} {result : α → Names} {reason : Prop}

/-- A call that comes before any failure succeeds as it should, or nothing has changed but that
it failed. -/
theorem Shows.call (shown : dir.Shows names [] s)
    (law : WP act (fun a t => granted a ∧ dir.Valid t ∧ dir.names t = result a)
      (fun _ t => reason ∧ dir.Valid t ∧ dir.names t = names) s.state) :
    WP (act.watched refusal) (fun a t => granted a ∧ dir.Shows (result a) [] t)
      (fun f => dir.Shows names [f]) s := by
  have noted (f : Fault) : s.faults ++ [f] = [f] := by rw [shown.noted, List.nil_append]
  refine wp_watched (fun _ => ⟨shown.valid, shown.reads, noted _, fun _ => rfl⟩) (law.mono ?_ ?_)
  · rintro a t ⟨given, valid, result⟩
    exact ⟨given, valid, result, shown.noted, nofun⟩
  · rintro f t ⟨_, valid, same⟩
    exact ⟨valid, same, noted f, fun _ => rfl⟩

/-- After a failure a call that there is no reason to refuse succeeds. -/
theorem Shows.call_undoing (shown : dir.Shows names [f] s)
    (law : WP act (fun a t => granted a ∧ dir.Valid t ∧ dir.names t = result a)
      (fun _ t => reason ∧ dir.Valid t ∧ dir.names t = names) s.state)
    (unreasonable : ¬reason) :
    WP (act.watched refusal) (fun a => dir.Shows (result a) [f]) (fun _ _ => False) s := by
  have calm : s.patience = none := shown.settled (List.cons_ne_nil f [])
  refine wp_watched (fun turn => by rw [calm] at turn; cases turn) (law.mono ?_ ?_)
  · rintro a t ⟨_, valid, result⟩
    exact ⟨valid, result, shown.noted, fun _ => by rw [calm, Option.map_none]⟩
  · rintro f t ⟨due, _⟩
    exact unreasonable due

/-- Renaming a table back gives every name to the table that had it. -/
theorem Shows.wp_renameBack (shown : dir.Shows (names.moved a b) [f] s) (there : (names a).isSome)
    (free : names b = none) :
    WP ((tables.watched refusal).rename b a) (fun _ => dir.Shows names [f]) (fun _ _ => False)
      s := by
  obtain ⟨free', taken⟩ := Names.free_moved there free
  have law := dir.rename s.state b a shown.valid
  rw [shown.reads, Names.moved_moved there free] at law
  exact shown.call_undoing law (by simp [free', taken])

/-- An action that is undone after it failed leaves every name as it was before. -/
theorem wp_orUndo {act : Action (Watched σ) Unit} {undo : Action (Watched σ) Unit}
    {post : Unit → Watched σ → Prop} (tried : WP act post (fun f => dir.Shows names' [f]) s)
    (undone : ∀ f t, dir.Shows names' [f] t →
      WP undo (fun _ => dir.Shows names [f]) (fun _ _ => False) t) :
    WP (act.orUndo undo) post (fun f => dir.Shows names [f]) s := by
  rw [Action.wp_orUndo]
  exact tried.mono (fun _ _ => id) fun f t shown =>
    (undone f t shown).mono (fun _ _ => id) fun _ _ => False.elim

variable {w : Swap}

theorem Shows.wp_moveIn (shown : dir.Shows names [] s) :
    WP (w.moveIn (tables.watched refusal))
      (fun _ => dir.Shows ((names.moved w.temporaryNew w.name).freed w.temporaryOld) [])
      (fun f => dir.Shows names [f]) s := by
  have rename := dir.rename s.state w.temporaryNew w.name shown.valid
  rw [shown.reads] at rename
  rw [Swap.moveIn, wp_bind]
  refine (shown.call rename).mono_post ?_
  rintro _ t ⟨⟨there, free⟩, moved⟩
  have drop := dir.drop t.state w.temporaryOld moved.valid
  rw [moved.reads] at drop
  refine wp_orUndo ?_ fun f u failed => failed.wp_renameBack there free
  exact (moved.call (drop.mono_post fun _ _ => And.intro trivial)).mono_post fun _ _ => And.right

theorem Shows.wp_exchange (shown : dir.Shows names [] s) (spared : dir.Spares copier) :
    WP (w.exchange (tables.watched refusal) (copier.watched refusal))
      (fun _ t => names w.temporaryOld = none ∧
        dir.Shows (((names.moved w.name w.temporaryOld).moved w.temporaryNew w.name).freed
          w.temporaryOld) [] t)
      (fun f => dir.Shows names [f]) s := by
  have copy := spared s.state w.name w.temporaryNew shown.valid
  rw [shown.reads] at copy
  rw [Swap.exchange, wp_bind]
  have harmless := copy.mono (fun _ _ => And.intro trivial) fun _ _ => And.intro trivial
  refine (shown.call harmless).mono_post ?_
  rintro _ t ⟨_, shown⟩
  have rename := dir.rename t.state w.name w.temporaryOld shown.valid
  rw [shown.reads] at rename
  rw [wp_bind]
  refine (shown.call rename).mono_post ?_
  rintro _ u ⟨⟨there, free⟩, moved⟩
  exact wp_orUndo (moved.wp_moveIn.mono_post fun _ _ swapped => ⟨free, swapped⟩) fun f v failed =>
    failed.wp_renameBack there free

theorem Shows.wp_execute (shown : dir.Shows names [] s) (spared : dir.Spares copier)
    (there : (names w.name).isSome) :
    WP (w.execute (tables.watched refusal) (copier.watched refusal))
      (fun id t => (∀ name, names name ≠ some id) ∧ dir.Shows (names.bound w.name id) [] t)
      (fun f => dir.Shows names [f]) s := by
  have create := dir.create s.state { w.definition with name := w.temporaryNew } shown.valid
  rw [shown.reads] at create
  rw [Swap.execute, wp_bind]
  refine (shown.call create).mono_post ?_
  rintro id t ⟨⟨free, fresh⟩, created⟩
  rw [wp_bind]
  refine wp_orUndo ((created.wp_exchange spared).mono_post ?_) ?_
  · rintro _ u ⟨free', swapped⟩
    rw [Names.swapped there free free'] at swapped
    exact ⟨fresh, swapped⟩
  · intro f u shown
    have drop := dir.drop u.state w.temporaryNew shown.valid
    rw [shown.reads, Names.freed_bound free] at drop
    exact shown.call_undoing (drop.mono_post fun _ _ => And.intro trivial) (by simp [Names.bound])

end Directory

/-- In any directory a swap ends in one of two ways. If it comes through, the only name that stands
for another table than before is that of the table, and it stands for a new one. If it fails,
every name stands for what it stood for, and what is undone is undone without a failure: the
only call that failed is the one whose fault is reported. This holds as well when a call, no
matter which, is refused for a reason of its own, and whatever the names in between are. -/
theorem Swap.execute_swaps_or_restores (dir : Directory tables) (w : Swap) {s : σ}
    (valid : dir.Valid s) (there : (dir.names s w.name).isSome) (spared : dir.Spares copier) :
    WP (w.execute tables copier)
      (fun id t => (∀ name, dir.names s name ≠ some id) ∧
        dir.names t = (dir.names s).bound w.name id)
      (fun _ t => dir.names t = dir.names s) s ∧
    ∀ refusal patience,
      WP (w.execute (tables.watched refusal) (copier.watched refusal))
        (fun id t => (∀ name, dir.names s name ≠ some id) ∧
          dir.names t.state = (dir.names s).bound w.name id ∧ t.faults = [])
        (fun f t => dir.names t.state = dir.names s ∧ t.faults = [f])
        { state := s, patience } := by
  have watched (refusal : Fault) (patience : Option Nat) :
      WP (w.execute (tables.watched refusal) (copier.watched refusal))
        (fun id t => (∀ name, dir.names s name ≠ some id) ∧
          dir.Shows ((dir.names s).bound w.name id) [] t)
        (fun f => dir.Shows (dir.names s) [f]) { state := s, patience } :=
    Directory.Shows.wp_execute ⟨valid, rfl, rfl, nofun⟩ spared there
  refine ⟨w.mirrors_execute.wp ((watched .cancelled none).mono ?_ ?_), fun refusal patience =>
    (watched refusal patience).mono ?_ ?_⟩
  · exact fun _ _ ⟨fresh, shown⟩ => ⟨fresh, shown.reads⟩
  · exact fun _ _ shown => shown.reads
  · exact fun _ _ ⟨fresh, shown⟩ => ⟨fresh, shown.reads, shown.noted⟩
  · exact fun _ _ shown => ⟨shown.reads, shown.noted⟩

/-- The customers of the shop are to be replaced, and moving the new table into its place is
refused. -/
theorem Swap.execute_swaps_or_restores_shop :
    ∃ f t, (Swap.ofConfig {} Catalog.customers.name Catalog.customers).execute
        (Memory.tableActions.watched .cancelled) (Copier.watched .cancelled Memory.copyRows)
        { state := Memory.stockedShop, patience := some 3 } = .error f t ∧
      t.state.catalog.holder = Catalog.shop.holder ∧ t.faults = [f] := by
  have kept : Memory.directory.Valid Memory.stockedShop :=
    ⟨Catalog.shop_wellFormed.intact, Catalog.shop_wellFormed.distinctNames⟩
  obtain ⟨f, t, failed, _⟩ := exists_error_of_wp (show
    WP ((Swap.ofConfig {} Catalog.customers.name Catalog.customers).execute
        (Memory.tableActions.watched .cancelled) (Copier.watched .cancelled Memory.copyRows))
      (fun _ _ => False) (fun f _ => f = .cancelled)
      { state := Memory.stockedShop, patience := some 3 } by decide +kernel)
  have restored := (Swap.execute_swaps_or_restores Memory.directory
    (Swap.ofConfig {} Catalog.customers.name Catalog.customers) kept (by decide +kernel)
    (Memory.directory_spares Memory.confined_copyRows)).2 .cancelled (some 3)
  exact ⟨f, t, failed, restored.error failed⟩

end GroupedTables
