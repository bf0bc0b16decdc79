import GroupedTables.Fault.Action

/-!
# The run of a statement

While a statement is run it can be cancelled from outside, and it may have to tell that it
changed a value. Cancelling is noticed only at the checks a run makes, so all that matters
of the moment it happens is which of the checks is the first to see it.
-/

namespace GroupedTables

/-- A value that was changed to fit a narrower type. -/
structure Notice where
  given : String
  kept : String
  deriving Repr, DecidableEq

/-- What is known of a statement while it runs. -/
structure Context where
  /-- The first check that finds the statement cancelled; checks are counted from one. -/
  cancelledFrom : Option Nat := none
  /-- How many checks were made. -/
  checks : Nat := 0
  notices : List Notice := []
  deriving Repr, DecidableEq, Inhabited

namespace Context

/-- A statement that was cancelled before it ran. -/
def cancelled : Context := { cancelledFrom := some 0 }

/-- Whether a check finds the statement cancelled. -/
def cancelledAt (c : Context) (check : Nat) : Bool := c.cancelledFrom.any (· ≤ check)

def checkCancelled : Action Context Unit := do
  modify fun c => { c with checks := c.checks + 1 }
  let c ← get
  if c.cancelledAt c.checks then
    throw .cancelled

def tell (given kept : String) : Action Context Unit :=
  modify fun c => { c with notices := c.notices ++ [{ given, kept }] }

end Context

end GroupedTables
