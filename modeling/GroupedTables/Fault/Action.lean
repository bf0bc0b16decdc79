import GroupedTables.Fault.Basic

/-!
# Actions

An action changes a state and either yields a value or fails with a fault. What it has
changed before it fails stays changed, so whether a failure leaves a trace is a property of
each action and not of the form they are written in. A caller that wants all or nothing
asks for it.
-/

namespace GroupedTables

/-- Changes a state, and yields a value or fails. -/
abbrev Action (σ : Type) := EStateM Fault σ

/-- What only looks at a state fails an action as it fails itself. -/
instance {σ : Type} : MonadLift (Except Fault) (EStateM Fault σ) where
  monadLift
    | .ok a => pure a
    | .error f => throw f

namespace Action

variable {σ τ α : Type}

/-- The outcome of an action on a state, and the state it leaves. -/
def outcome (act : Action σ α) (s : σ) : Except Fault α × σ :=
  match act s with
  | .ok a s => (.ok a, s)
  | .error f s => (.error f, s)

/-- Runs an action on a part of a larger state. -/
def within (read : τ → σ) (write : σ → τ → τ) (act : Action σ α) : Action τ α := fun t =>
  match act (read t) with
  | .ok a s => .ok a (write s t)
  | .error f s => .error f (write s t)

/-- Runs an action so that it leaves no trace if it fails. -/
def allOrNothing (act : Action σ α) : Action σ α := fun s =>
  match act s with
  | .ok a s => .ok a s
  | .error f _ => .error f s

/-- Runs an action, and if it fails another one on the state it left. The fault is that of
the first action, also where the second one fails too. -/
def orUndo (act : Action σ α) (undo : Action σ Unit) : Action σ α := fun s =>
  match act s with
  | .ok a s => .ok a s
  | .error f s =>
    match undo s with
    | .ok _ s => .error f s
    | .error _ s => .error f s

theorem allOrNothing_error {act : Action σ α} {s t : σ} {f : Fault}
    (h : act.allOrNothing s = .error f t) : t = s := by
  unfold allOrNothing at h
  split at h
  · cases h
  · cases h; rfl

end Action

end GroupedTables
