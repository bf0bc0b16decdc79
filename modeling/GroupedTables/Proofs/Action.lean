import GroupedTables.Fault.Action

/-!
# Reasoning about actions

`WP` says of an action on a state what has to hold of every way in which it can end: of the
value and the state if it succeeds, and of the fault and the state it leaves if it fails.
The rules below take an action apart along the steps it is written in, so a proof follows
the text of the action and never the way failures are passed on.

A fault is foreseen if somebody's statement is to blame for it. Every fault is, except the
breaches of an invariant.
-/

namespace GroupedTables

namespace Fault

/-- The fault is not a broken invariant. -/
def Foreseen : Fault → Prop
  | .internal _ => False
  | _ => True

theorem foreseen_iff_code {f : Fault} : f.Foreseen ↔ f.code ≠ "INTERNAL_ERROR" := by
  cases f <;> simp [Foreseen, code]

end Fault

namespace Check

variable {α β : Type} {f : Fault}

variable {P : Fault → Prop}

/-- Every fault of a check is of a kind. -/
def Limits (P : Fault → Prop) (x : Except Fault α) : Prop := ∀ f, x = .error f → P f

/-- Every fault of a check is foreseen. -/
abbrev Foresees (x : Except Fault α) : Prop := Limits Fault.Foreseen x

section

variable {ε : Type} {x : Except ε α} {b : β}

theorem bind_eq_ok {next : α → Except ε β} :
    (x >>= next) = .ok b ↔ ∃ a, x = .ok a ∧ next a = .ok b := by
  cases x <;> simp [bind, Except.bind]

theorem map_eq_ok {g : α → β} : x.map g = .ok b ↔ ∃ a, x = .ok a ∧ g a = b := by
  cases x <;> simp [Except.map]

/-- What is checked first has to pass. -/
theorem seq_eq_ok {x : Except ε Unit} {y : Except ε β} :
    (x >>= fun _ => y) = .ok b ↔ x = .ok () ∧ y = .ok b := by
  cases x <;> simp [bind, Except.bind]

/-- What is not let pass goes no further. -/
theorem guard_eq_ok {c : Prop} [Decidable c] {e : ε} {next : Unit → Except ε β} :
    (if c then throw e >>= next else next ()) = .ok b ↔ ¬c ∧ next () = .ok b := by
  split <;> simp [*, bind, Except.bind, throw, throwThe, MonadExceptOf.throw]

end

theorem bind_eq_error {x : Except Fault α} {next : α → Except Fault β} :
    (x >>= next) = .error f ↔ x = .error f ∨ ∃ a, x = .ok a ∧ next a = .error f := by
  cases x <;> simp [bind, Except.bind]

/-- What is found in a record is found all the same where its defects are faults. -/
theorem lift_eq_ok {x : Except RowDefect α} {a : α} :
    (liftM x : Except Fault α) = .ok a ↔ x = .ok a := by
  cases x with
  | ok value =>
    exact ⟨fun same => congrArg Except.ok (Except.ok.inj same),
      fun same => congrArg Except.ok (Except.ok.inj same)⟩
  | error defect => exact iff_of_false nofun nofun

theorem forM_eq_ok {check : α → Except Fault Unit} {items : List α} :
    items.forM check = .ok () ↔ ∀ a ∈ items, check a = .ok () := by
  induction items with
  | nil => simp [List.forM, pure, Except.pure]
  | cons a rest ih =>
    rw [List.forM, bind_eq_ok, List.forall_mem_cons, ← ih]
    constructor
    · rintro ⟨_, first, others⟩
      exact ⟨first, others⟩
    · rintro ⟨first, others⟩
      exact ⟨_, first, others⟩

theorem limits_ok (a : α) : Limits P (.ok a) := nofun

theorem limits_error (h : P f) : Limits P (.error f : Except Fault α) := by
  rintro _ ⟨⟩
  exact h

theorem Limits.mono {P' : Fault → Prop} {x : Except Fault α} (h : Limits P x)
    (wider : ∀ f, P f → P' f) : Limits P' x := fun f failed => wider f (h f failed)

theorem Limits.bind {x : Except Fault α} {next : α → Except Fault β} (first : Limits P x)
    (rest : ∀ a, x = .ok a → Limits P (next a)) : Limits P (x >>= next) := by
  intro f failed
  obtain failed | ⟨a, succeeded, failed⟩ := bind_eq_error.1 failed
  · exact first f failed
  · exact rest a succeeded f failed

theorem Limits.forM {check : α → Except Fault Unit} {items : List α}
    (each : ∀ a ∈ items, Limits P (check a)) : Limits P (items.forM check) := by
  induction items with
  | nil => exact limits_ok _
  | cons a rest ih =>
    rw [List.forM]
    exact (each a (.head _)).bind fun _ _ => ih fun b inside => each b (.tail _ inside)

theorem Limits.ite {c : Prop} [Decidable c] {x y : Except Fault α} (first : c → Limits P x)
    (second : ¬c → Limits P y) : Limits P (if c then x else y) := by
  split
  · exact first ‹_›
  · exact second ‹_›

theorem discard_eq_ok {x : Except Fault α} : discard x = .ok () ↔ ∃ a, x = .ok a := by
  cases x <;> simp [discard, Functor.discard, Functor.mapConst, Except.map]

theorem Limits.discard {x : Except Fault α} (h : Limits P x) : Limits P (discard x) := by
  cases x with
  | ok a => exact limits_ok _
  | error f => exact limits_error (h f rfl)

theorem Limits.map {x : Except Fault α} {g : α → β} (h : Limits P x) : Limits P (x.map g) := by
  cases x with
  | ok a => exact limits_ok _
  | error f => exact limits_error (h f rfl)

end Check

namespace Action

variable {σ τ α β : Type}

/-- What holds in the end: of the value and the state, or of the fault and the state left. -/
def WP (act : Action σ α) (post : α → σ → Prop) (fails : Fault → σ → Prop) (s : σ) : Prop :=
  match act s with
  | .ok a t => post a t
  | .error f t => fails f t

variable {post : α → σ → Prop} {fails : Fault → σ → Prop} {s t : σ} {act : Action σ α} {a : α}
  {f : Fault}

theorem wp_of_ok (h : act s = .ok a t) : WP act post fails s ↔ post a t := by rw [WP, h]

theorem wp_of_error (h : act s = .error f t) : WP act post fails s ↔ fails f t := by rw [WP, h]

instance [∀ a t, Decidable (post a t)] [∀ f t, Decidable (fails f t)] :
    Decidable (WP act post fails s) :=
  match ended : act s with
  | .ok _ _ => decidable_of_iff _ (wp_of_ok ended).symm
  | .error _ _ => decidable_of_iff _ (wp_of_error ended).symm

/-- An action that is not allowed to fail succeeds. -/
theorem exists_ok_of_wp (h : WP act post (fun _ _ => False) s) :
    ∃ a t, act s = .ok a t ∧ post a t := by
  unfold WP at h
  split at h
  case h_1 a t ended => exact ⟨a, t, ended, h⟩
  case h_2 => exact h.elim

/-- An action that can only end in one way does end in it. -/
theorem eq_ok_of_wp (h : WP act (fun a' t' => a' = a ∧ t' = t) (fun _ _ => False) s) :
    act s = .ok a t := by
  obtain ⟨_, _, ended, rfl, rfl⟩ := exists_ok_of_wp h
  exact ended

/-- An action that is not allowed to succeed fails. -/
theorem exists_error_of_wp (h : WP act (fun _ _ => False) fails s) :
    ∃ f t, act s = .error f t ∧ fails f t := by
  unfold WP at h
  split at h
  case h_1 => exact h.elim
  case h_2 f t ended => exact ⟨f, t, ended, h⟩

theorem WP.ok (h : WP act post fails s) (succeeded : act s = .ok a t) : post a t :=
  (wp_of_ok succeeded).1 h

theorem WP.error (h : WP act post fails s) (failed : act s = .error f t) : fails f t := by
  rw [WP, failed] at h
  exact h

theorem WP.mono {post' : α → σ → Prop} {fails' : Fault → σ → Prop} (h : WP act post fails s)
    (ok : ∀ a t, post a t → post' a t) (error : ∀ f t, fails f t → fails' f t) :
    WP act post' fails' s := by
  unfold WP at h ⊢
  split at h
  · exact ok _ _ h
  · exact error _ _ h

theorem WP.mono_post {post' : α → σ → Prop} (h : WP act post fails s)
    (ok : ∀ a t, post a t → post' a t) : WP act post' fails s :=
  h.mono ok fun _ _ => id

/-- What holds of an outcome holds together with how it came about. -/
theorem WP.outcome (h : WP act post fails s) :
    WP act (fun a t => act s = .ok a t ∧ post a t)
      (fun f t => act s = .error f t ∧ fails f t) s := by
  unfold WP at h ⊢
  split at h
  case h_1 ended => exact ⟨ended, h⟩
  case h_2 ended => exact ⟨ended, h⟩

/-- Two things that hold of an outcome hold of it together. -/
theorem WP.and {post' : α → σ → Prop} {fails' : Fault → σ → Prop} (h : WP act post fails s)
    (h' : WP act post' fails' s) :
    WP act (fun a t => post a t ∧ post' a t) (fun f t => fails f t ∧ fails' f t) s := by
  unfold WP at h h' ⊢
  split at h
  case h_1 ended =>
    rw [ended] at h'
    exact ⟨h, h'⟩
  case h_2 ended =>
    rw [ended] at h'
    exact ⟨h, h'⟩

/-- What holds however an action ends holds of the state it leaves. -/
theorem WP.leaves {P : σ → Prop} (h : WP act (fun _ => P) (fun _ => P) s) :
    P (act.outcome s).2 := by
  unfold Action.outcome
  cases ended : act s with
  | ok a t => exact h.ok ended
  | error f t => exact h.error ended

@[simp] theorem wp_pure (a : α) : WP (pure a : Action σ α) post fails s ↔ post a s := Iff.rfl

@[simp] theorem wp_throw (f : Fault) : WP (throw f : Action σ α) post fails s ↔ fails f s :=
  Iff.rfl

@[simp] theorem wp_get {post : σ → σ → Prop} :
    WP (get : Action σ σ) post fails s ↔ post s s := Iff.rfl

@[simp] theorem wp_set {post : PUnit → σ → Prop} (t : σ) :
    WP (set t : Action σ PUnit) post fails s ↔ post ⟨⟩ t := Iff.rfl

@[simp] theorem wp_modify {post : PUnit → σ → Prop} (g : σ → σ) :
    WP (modify g : Action σ PUnit) post fails s ↔ post ⟨⟩ (g s) := Iff.rfl

@[simp] theorem wp_modifyGet (g : σ → α × σ) :
    WP (modifyGet g : Action σ α) post fails s ↔ post (g s).1 (g s).2 := Iff.rfl

@[simp] theorem wp_bind {post : β → σ → Prop} (act : Action σ α) (next : α → Action σ β) :
    WP (act >>= next) post fails s ↔ WP act (fun a => WP (next a) post fails) fails s := by
  unfold WP
  simp only [bind, EStateM.bind]
  cases act s <;> rfl

@[simp] theorem wp_map {post : β → σ → Prop} (g : α → β) :
    WP (g <$> act) post fails s ↔ WP act (fun a => post (g a)) fails s := by
  unfold WP
  simp only [Functor.map, EStateM.map]
  cases act s <;> rfl

@[simp] theorem wp_discard {post : PUnit → σ → Prop} :
    WP (discard act) post fails s ↔ WP act (fun _ => post ⟨⟩) fails s := by
  unfold WP
  simp only [discard, Functor.discard, Functor.mapConst, Function.comp_apply, EStateM.map]
  cases act s <;> rfl

theorem wp_ite {c : Prop} [Decidable c] {other : Action σ α} :
    WP (if c then act else other) post fails s ↔
      (c → WP act post fails s) ∧ (¬c → WP other post fails s) := by
  by_cases h : c <;> simp [h]

theorem bind_of_ok {next : α → Action σ β} (h : act s = .ok a t) : (act >>= next) s = next a t := by
  simp only [bind, EStateM.bind, h]

theorem bind_of_error {next : α → Action σ β} (h : act s = .error f t) :
    (act >>= next) s = .error f t := by
  simp only [bind, EStateM.bind, h]

/-- What follows a step matters only where the step leads. -/
theorem bind_eq_bind {act' : Action σ α} {next next' : α → Action σ β} (first : act s = act' s)
    (rest : ∀ a t, act s = .ok a t → next a t = next' a t) :
    (act >>= next) s = (act' >>= next') s := by
  cases ended : act s with
  | ok a t => rw [bind_of_ok ended, bind_of_ok (first.symm.trans ended), rest a t ended]
  | error f t => rw [bind_of_error ended, bind_of_error (first.symm.trans ended)]

theorem outcome_congr {act' : Action σ α} (same : act s = act' s) :
    act.outcome s = act'.outcome s := by
  rw [outcome, same, outcome]

theorem orUndo_of_ok {undo : Action σ Unit} (h : act s = .ok a t) :
    act.orUndo undo s = .ok a t := by
  simp only [orUndo, h]

theorem orUndo_of_error {undo : Action σ Unit} (h : act s = .error f t) :
    act.orUndo undo s = .error f (undo.outcome t).2 := by
  simp only [orUndo, h, outcome]
  cases undo t <;> rfl

/-- A check ends as it ends on its own, and leaves the state as it is. -/
@[simp] theorem wp_lift (x : Except Fault α) :
    WP (liftM x : Action σ α) post fails s ↔
      (∀ a, x = .ok a → post a s) ∧ ∀ f, x = .error f → fails f s := by
  cases x with
  | ok a =>
    constructor
    · intro h
      refine ⟨?_, nofun⟩
      rintro _ ⟨⟩
      exact h
    · intro h
      exact h.1 a rfl
  | error f =>
    constructor
    · intro h
      refine ⟨nofun, ?_⟩
      rintro _ ⟨⟩
      exact h
    · intro h
      exact h.2 f rfl

theorem wp_lift_of_ok {x : Except Fault α} (h : x = .ok a) :
    WP (liftM x : Action σ α) post fails s ↔ post a s := by
  rw [h]
  exact Iff.rfl

theorem lift_eq_ok {x : Except Fault α} :
    (liftM x : Action σ α) s = .ok a t ↔ x = .ok a ∧ t = s := by
  cases x with
  | ok b =>
    constructor
    · rintro ⟨⟩
      exact ⟨rfl, rfl⟩
    · rintro ⟨⟨⟩, rfl⟩
      rfl
  | error f => exact iff_of_false nofun nofun

theorem within_eq_ok {read : τ → σ} {write : σ → τ → τ} {s t : τ} :
    act.within read write s = .ok a t ↔ ∃ part, act (read s) = .ok a part ∧ t = write part s := by
  unfold within
  cases act (read s) with
  | ok b part =>
    constructor
    · rintro ⟨⟩
      exact ⟨part, rfl, rfl⟩
    · rintro ⟨_, ⟨⟩, rfl⟩
      rfl
  | error f part => exact iff_of_false nofun nofun

@[simp] theorem wp_within {read : τ → σ} {write : σ → τ → τ} {post : α → τ → Prop}
    {fails : Fault → τ → Prop} {s : τ} :
    WP (act.within read write) post fails s ↔
      WP act (fun a part => post a (write part s)) (fun f part => fails f (write part s))
        (read s) := by
  unfold WP within
  cases act (read s) <;> rfl

@[simp] theorem wp_allOrNothing :
    WP act.allOrNothing post fails s ↔ WP act post (fun f _ => fails f s) s := by
  unfold WP allOrNothing
  cases act s <;> rfl

theorem wp_orUndo {undo : Action σ Unit} :
    WP (act.orUndo undo) post fails s ↔
      WP act post (fun f => WP undo (fun _ => fails f) fun _ => fails f) s := by
  unfold WP orUndo
  cases act s with
  | ok => rfl
  | error f t => cases h : undo t <;> simp [h]

/-- An invariant of the items still to come, kept by each step, carries a loop through. -/
theorem wp_forM {items : List α} {act : α → Action σ Unit} {post : Unit → σ → Prop}
    (inv : List α → σ → Prop) (start : inv items s) (done : ∀ t, inv [] t → post ⟨⟩ t)
    (step : ∀ a rest t, inv (a :: rest) t → WP (act a) (fun _ => inv rest) fails t) :
    WP (items.forM act) post fails s := by
  induction items generalizing s with
  | nil => exact done s start
  | cons a rest ih =>
    rw [List.forM, wp_bind]
    exact (step a rest s start).mono_post fun _ t kept => ih kept

/-- An invariant of the state alone, for steps that differ only in their item. -/
theorem wp_forM_mem {items : List α} {act : α → Action σ Unit} {post : Unit → σ → Prop}
    (inv : σ → Prop) (start : inv s) (done : ∀ t, inv t → post ⟨⟩ t)
    (step : ∀ a ∈ items, ∀ t, inv t → WP (act a) (fun _ => inv) fails t) :
    WP (items.forM act) post fails s := by
  refine wp_forM (fun rest t => (∀ a ∈ rest, a ∈ items) ∧ inv t) ⟨fun _ => id, start⟩
    (fun t kept => done t kept.2) fun a rest t kept => ?_
  exact (step a (kept.1 a (.head _)) t kept.2).mono_post fun _ _ kept' =>
    ⟨fun b inside => kept.1 b (.tail _ inside), kept'⟩

/-- A loop that only checks what it goes through. -/
theorem wp_forM_lift {items : List α} {check : α → Except Fault Unit} {post : Unit → σ → Prop}
    (passed : (∀ a ∈ items, check a = .ok ()) → post () s)
    (failed : ∀ a ∈ items, ∀ f, check a = .error f → fails f s) :
    WP (items.forM fun a => liftM (check a)) post fails s := by
  induction items with
  | nil => exact passed nofun
  | cons a rest ih =>
    rw [List.forM, wp_bind, wp_lift]
    refine ⟨fun _ first => ih (fun others => passed ?_) fun b inside => failed b (.tail _ inside),
      failed a (.head _)⟩
    exact List.forall_mem_cons.2 ⟨first, others⟩

/-- A loop with a value that is passed along. -/
theorem wp_foldlM {items : List α} {act : β → α → Action σ β} {b : β} {post : β → σ → Prop}
    (inv : List α → β → σ → Prop) (start : inv items b s) (done : ∀ b t, inv [] b t → post b t)
    (step : ∀ a rest b t, inv (a :: rest) b t → WP (act b a) (inv rest) fails t) :
    WP (items.foldlM act b) post fails s := by
  induction items generalizing s b with
  | nil => exact done b s start
  | cons a rest ih =>
    rw [List.foldlM_cons, wp_bind]
    exact (step a rest b s start).mono_post fun _ t kept => ih kept

/-- A loop that collects values. -/
theorem wp_mapM {items : List α} {act : α → Action σ β} {post : List β → σ → Prop}
    (inv : List α → σ → Prop) (start : inv items s) (done : ∀ values t, inv [] t → post values t)
    (step : ∀ a rest t, inv (a :: rest) t → WP (act a) (fun _ => inv rest) fails t) :
    WP (items.mapM act) post fails s := by
  induction items generalizing s post with
  | nil => exact done [] s start
  | cons a rest ih =>
    rw [List.mapM_cons, wp_bind]
    apply (step a rest s start).mono_post
    intro b t kept
    rw [wp_bind]
    exact ih kept fun values t kept => done (b :: values) t kept

/-- What holds of a state still holds when the action has succeeded on it. -/
def Preserves (P : σ → Prop) (act : Action σ α) : Prop :=
  ∀ s, P s → WP act (fun _ => P) (fun _ _ => True) s

variable {P : σ → Prop}

theorem preserves_pure (a : α) : Preserves P (pure a : Action σ α) := fun _ holds => holds

theorem preserves_throw (f : Fault) : Preserves P (throw f : Action σ α) := fun _ _ => trivial

theorem preserves_get : Preserves P (get : Action σ σ) := fun _ holds => holds

theorem preserves_modify {g : σ → σ} (same : ∀ s, P s → P (g s)) :
    Preserves P (modify g : Action σ PUnit) := fun s holds => same s holds

theorem preserves_lift (x : Except Fault α) : Preserves P (liftM x : Action σ α) := by
  intro s holds
  rw [wp_lift]
  exact ⟨fun _ _ => holds, fun _ _ => trivial⟩

namespace Preserves

theorem bind {next : α → Action σ β} (first : Preserves P act)
    (rest : ∀ a, Preserves P (next a)) : Preserves P (act >>= next) := by
  intro s holds
  rw [wp_bind]
  exact (first s holds).mono_post fun a t kept => rest a t kept

theorem map {g : α → β} (h : Preserves P act) : Preserves P (g <$> act) := by
  intro s holds
  rw [wp_map]
  exact h s holds

theorem discard (h : Preserves P act) : Preserves P (Functor.discard act) := by
  intro s holds
  rw [wp_discard]
  exact h s holds

theorem ite {c : Prop} [Decidable c] {other : Action σ α} (first : Preserves P act)
    (second : Preserves P other) : Preserves P (if c then act else other) := by
  split
  · exact first
  · exact second

theorem forM {items : List α} {act : α → Action σ Unit} (each : ∀ a ∈ items, Preserves P (act a)) :
    Preserves P (items.forM act) := fun _ holds =>
  wp_forM_mem P holds (fun _ kept => kept) fun a inside t kept => each a inside t kept

theorem foldlM {items : List α} {act : β → α → Action σ β} {b : β}
    (each : ∀ b a, Preserves P (act b a)) : Preserves P (items.foldlM act b) := fun _ holds =>
  wp_foldlM (fun _ _ => P) holds (fun _ _ kept => kept) fun a _ b t kept => each b a t kept

/-- What holds of a part holds of it when the part was acted on. -/
theorem within {read : τ → σ} {write : σ → τ → τ} (written : ∀ s t, read (write s t) = s)
    (h : Preserves P act) : Preserves (fun t => P (read t)) (act.within read write) := by
  intro t holds
  rw [wp_within]
  exact (h _ holds).mono (fun _ s kept => (written s t).symm ▸ kept) fun _ _ => id

end Preserves

/-- What holds of a state holds of the state that the action leaves, however it ends. -/
def Maintains (P : σ → Prop) (act : Action σ α) : Prop :=
  ∀ s, P s → WP act (fun _ => P) (fun _ => P) s

theorem maintains_pure (a : α) : Maintains P (pure a : Action σ α) := fun _ holds => holds

theorem maintains_throw (f : Fault) : Maintains P (throw f : Action σ α) := fun _ holds => holds

theorem maintains_get : Maintains P (get : Action σ σ) := fun _ holds => holds

theorem maintains_modify {g : σ → σ} (same : ∀ s, P s → P (g s)) :
    Maintains P (modify g : Action σ PUnit) := fun s holds => same s holds

theorem maintains_lift (x : Except Fault α) : Maintains P (liftM x : Action σ α) := by
  intro s holds
  rw [wp_lift]
  exact ⟨fun _ _ => holds, fun _ _ => holds⟩

namespace Maintains

theorem bind {next : α → Action σ β} (first : Maintains P act)
    (rest : ∀ a, Maintains P (next a)) : Maintains P (act >>= next) := by
  intro s holds
  rw [wp_bind]
  exact (first s holds).mono_post fun a t kept => rest a t kept

theorem discard (h : Maintains P act) : Maintains P (Functor.discard act) := by
  intro s holds
  rw [wp_discard]
  exact h s holds

theorem ite {c : Prop} [Decidable c] {other : Action σ α} (first : Maintains P act)
    (second : Maintains P other) : Maintains P (if c then act else other) := by
  split
  · exact first
  · exact second

theorem forM {items : List α} {act : α → Action σ Unit} (each : ∀ a, Maintains P (act a)) :
    Maintains P (items.forM act) := fun _ holds =>
  wp_forM_mem P holds (fun _ kept => kept) fun a _ t kept => each a t kept

end Maintains

/-- Every fault of an action is of a kind. -/
def Limits (P : Fault → Prop) (act : Action σ α) : Prop :=
  ∀ s, WP act (fun _ _ => True) (fun f _ => P f) s

variable {P : Fault → Prop}

theorem limits_pure (a : α) : Limits P (pure a : Action σ α) := fun _ => trivial

theorem limits_throw (h : P f) : Limits P (throw f : Action σ α) := fun _ => h

theorem limits_get : Limits P (get : Action σ σ) := fun _ => trivial

theorem limits_set (t : σ) : Limits P (set t : Action σ PUnit) := fun _ => trivial

theorem limits_modify (g : σ → σ) : Limits P (modify g : Action σ PUnit) := fun _ => trivial

theorem limits_lift {x : Except Fault α} (h : Check.Limits P x) :
    Limits P (liftM x : Action σ α) := by
  intro s
  rw [wp_lift]
  exact ⟨fun _ _ => trivial, h⟩

namespace Limits

theorem bind {next : α → Action σ β} (first : Limits P act) (rest : ∀ a, Limits P (next a)) :
    Limits P (act >>= next) := by
  intro s
  rw [wp_bind]
  exact (first s).mono_post fun a t _ => rest a t

theorem map {g : α → β} (h : Limits P act) : Limits P (g <$> act) := by
  intro s
  rw [wp_map]
  exact h s

theorem discard (h : Limits P act) : Limits P (Functor.discard act) := by
  intro s
  rw [wp_discard]
  exact h s

theorem ite {c : Prop} [Decidable c] {other : Action σ α} (first : Limits P act)
    (second : Limits P other) : Limits P (if c then act else other) := by
  split
  · exact first
  · exact second

theorem forM {items : List α} {act : α → Action σ Unit} (each : ∀ a, Limits P (act a)) :
    Limits P (items.forM act) := fun _ =>
  wp_forM_mem (fun _ => True) trivial (fun _ _ => trivial) fun a _ t _ => each a t

theorem mapM {items : List α} {act : α → Action σ β} (each : ∀ a, Limits P (act a)) :
    Limits P (items.mapM act) := fun _ =>
  wp_mapM (fun _ _ => True) trivial (fun _ _ _ => trivial) fun a _ t _ => each a t

theorem within {read : τ → σ} {write : σ → τ → τ} (h : Limits P act) :
    Limits P (act.within read write) := by
  intro t
  rw [wp_within]
  exact h _

end Limits

end Action

end GroupedTables
