import GroupedTables.Decimal.Packed
import GroupedTables.Record.Integer
import GroupedTables.Word
import Mathlib.Tactic.Ring

/-!
# Guarded runs

A machine does not look outside of a list, does not keep a number that does not fit in its word,
and does not shift a word by all its bits. A guarded run says so at every such step: it traps
there. It gives what a plain computation gives if it does not trap at all, and then it succeeds
and fails with it. The rules below follow a guarded run step by step.
-/

namespace GroupedTables

/-- What a machine refuses to do. -/
inductive Trap where
  /-- To take something that is not within a list. -/
  | outside
  /-- To keep a number that does not fit. -/
  | overflow
  /-- To shift a word by all its bits, or by more. -/
  | shift
  deriving Repr, DecidableEq

/-- A run that may trap; if it does not, it may fail. -/
abbrev Machine (ε α : Type) := ExceptT ε (Except Trap) α

namespace Machine

variable {ε ε' α β : Type}

def trap (t : Trap) : Machine ε α := ExceptT.mk (.error t)

def add (m n : Nat) : Machine ε Nat := if m + n < Word.bound then pure (m + n) else trap .overflow

def mul (m n : Nat) : Machine ε Nat := if m * n < Word.bound then pure (m * n) else trap .overflow

def sub (m n : Nat) : Machine ε Nat := if n ≤ m then pure (m - n) else trap .overflow

def addSigned (m n : Int) : Machine ε Int :=
  if Word.holds (m + n) then pure (m + n) else trap .overflow

/-- A quotient of signed words, towards zero. -/
def quotient (m n : Int) : Machine ε Int :=
  if n = 0 ∨ (m = Word.least ∧ n = -1) then trap .overflow else pure (m.tdiv n)

def remainder (m n : Int) : Machine ε Int :=
  if n = 0 ∨ (m = Word.least ∧ n = -1) then trap .overflow else pure (m.tmod n)

/-- A word of so many bits shifted up. What goes beyond them is lost. -/
def shiftUp (bits n places : Nat) : Machine ε Nat :=
  if places < bits then pure (n * 2 ^ places % 2 ^ bits) else trap .shift

def shiftDown (n : Int) (places : Nat) : Machine ε Int :=
  if places < 64 then pure (n / 2 ^ places) else trap .shift

def entry (items : List α) (i : Nat) : Machine ε α :=
  match items[i]? with
  | some a => pure a
  | none => trap .outside

/-- The bytes between two offsets. -/
def slice (bytes : List UInt8) (start stop : Nat) : Machine ε (List UInt8) :=
  if start ≤ stop ∧ stop ≤ bytes.length then pure (Record.span bytes start (stop - start))
  else trap .outside

/-- Fails as another run does, in other words. -/
def mapError (g : ε → ε') (run : Machine ε α) : Machine ε' α := ExceptT.adapt g run

/-- The run does not trap, and it gives what the plain computation gives. -/
def Gives (run : Machine ε α) (plain : Except ε α) : Prop := run.run = .ok plain

variable {run : Machine ε α} {plain : Except ε α} {next : α → Machine ε β} {rest : α → Except ε β}
  {c : Prop} [Decidable c] {a : α}

theorem gives_pure (a : α) : Gives (pure a : Machine ε α) (.ok a) := rfl

theorem gives_lift (plain : Except ε α) : Gives (liftM plain : Machine ε α) plain := rfl

theorem Gives.bind (first : run.Gives plain)
    (then_ : ∀ a, plain = .ok a → (next a).Gives (rest a)) :
    Gives (run >>= next) (plain >>= rest) := by
  have unfolded : (run >>= next).run = run.run >>= ExceptT.bindCont next := rfl
  rw [Gives, unfolded, first]
  cases plain with
  | error e => rfl
  | ok a => exact then_ a rfl

/-- A step that is not one of the plain computation. -/
theorem Gives.step {plain : Except ε β} (first : run.Gives (.ok a)) (then_ : (next a).Gives plain) :
    Gives (run >>= next) plain := by
  have unfolded : (run >>= next).run = run.run >>= ExceptT.bindCont next := rfl
  rw [Gives, unfolded, first]
  exact then_

theorem Gives.map {g : α → β} (first : run.Gives plain) : Gives (g <$> run) (plain.map g) := by
  have unfolded : g <$> run = run >>= fun a => pure (g a) := rfl
  have plainly : plain.map g = plain >>= fun a => .ok (g a) := by cases plain <;> rfl
  rw [unfolded, plainly]
  exact first.bind fun a _ => gives_pure (g a)

theorem Gives.mapError {g : ε → ε'} (first : run.Gives plain) :
    Gives (run.mapError g) (plain.mapError g) := by
  have unfolded : (run.mapError g).run = Except.mapError g <$> run.run := rfl
  rw [Gives, unfolded, first]
  rfl

theorem Gives.ite {other : Machine ε α} {plain' : Except ε α} (yes : c → run.Gives plain)
    (no : ¬c → other.Gives plain') :
    Gives (if c then run else other) (if c then plain else plain') := by
  split
  · exact yes ‹_›
  · exact no ‹_›

variable {m n bits places start stop i : Nat} {bytes : List UInt8}

theorem gives_add (fits : m + n < Word.bound) : Gives (add m n : Machine ε Nat) (.ok (m + n)) := by
  rw [add, if_pos fits]
  exact gives_pure _

theorem gives_mul (fits : m * n < Word.bound) : Gives (mul m n : Machine ε Nat) (.ok (m * n)) := by
  rw [mul, if_pos fits]
  exact gives_pure _

theorem gives_sub (less : n ≤ m) : Gives (sub m n : Machine ε Nat) (.ok (m - n)) := by
  rw [sub, if_pos less]
  exact gives_pure _

theorem gives_shiftUp (fewer : places < bits) :
    Gives (shiftUp bits n places : Machine ε Nat) (.ok (n * 2 ^ places % 2 ^ bits)) := by
  rw [shiftUp, if_pos fewer]
  exact gives_pure _

theorem gives_shiftDown {n : Int} (fewer : places < 64) :
    Gives (shiftDown n places : Machine ε Int) (.ok (n / 2 ^ places)) := by
  rw [shiftDown, if_pos fewer]
  exact gives_pure _

theorem gives_entry {items : List α} (found : items[i]? = some a) :
    Gives (entry items i : Machine ε α) (.ok a) := by
  rw [entry, found]
  exact gives_pure _

theorem gives_slice (ordered : start ≤ stop) (inside : stop ≤ bytes.length) :
    Gives (slice bytes start stop : Machine ε (List UInt8))
      (.ok (Record.span bytes start (stop - start))) := by
  rw [slice, if_pos ⟨ordered, inside⟩]
  exact gives_pure _

/-- The number that bytes stand for, most significant first, in a word of so many bits. -/
def joinBytes (bits : Nat) (bytes : List UInt8) : Machine ε Nat :=
  bytes.foldlM (fun n b => return (← shiftUp bits n 8) ||| b.toNat) 0

/-- Nothing is shifted out of a word that is wide enough for the bytes. -/
theorem gives_joinBytes (wide : 8 < bits) (fits : 8 * bytes.length ≤ bits) :
    Gives (joinBytes bits bytes : Machine ε Nat) (.ok (Decimal.ofBigEndian bytes)) := by
  suffices ∀ n, n < 2 ^ (bits - 8 * bytes.length) →
      Gives (bytes.foldlM (fun n b => return (← shiftUp bits n 8) ||| b.toNat) n : Machine ε Nat)
        (.ok (bytes.foldl (fun n b => 256 * n + b.toNat) n)) from this 0 (Nat.two_pow_pos _)
  induction bytes with
  | nil => exact fun n _ => gives_pure n
  | cons b rest ih =>
    intro n small
    rw [List.length_cons] at fits small
    have byte := b.toNat_lt
    have room : bits - 8 * rest.length = bits - 8 * (rest.length + 1) + 8 := by omega
    have next : 256 * n + b.toNat < 2 ^ (bits - 8 * rest.length) := by
      rw [room, Nat.pow_add]
      omega
    have kept : n * 2 ^ 8 % 2 ^ bits ||| b.toNat = 256 * n + b.toNat := by
      have below : n * 2 ^ 8 < 2 ^ bits := by
        have most : 2 ^ (bits - 8 * rest.length) ≤ 2 ^ bits :=
          Nat.pow_le_pow_right (by decide) (Nat.sub_le ..)
        omega
      rw [Nat.mod_eq_of_lt below, Nat.mul_comm]
      exact (Nat.two_pow_add_eq_or_of_lt byte n).symm
    rw [List.foldlM_cons, List.foldl_cons]
    refine Gives.step ((gives_shiftUp wide).step ?_) (ih (by omega) _ next)
    rw [kept]
    exact gives_pure _

end Machine

end GroupedTables
