import GroupedTables.Alter.Change
import GroupedTables.Proofs.Catalog.Columns
import Mathlib.Data.List.Nodup
import Mathlib.Data.List.Pairwise

/-!
# Change lists read in both directions

The first entry with a name decides what the list says of it. In a list that changes nothing in two
ways that is what every entry with the name says, so what is read backwards is found again forwards.
Where no two names end up the same either, the two directions undo each other.
-/

namespace GroupedTables

/-- Two members that a function with distinct values takes to one value are the same. -/
theorem eq_of_nodup_filterMap {α β : Type} {f : α → Option β} {l : List α} {a a' : α} {b : β}
    (distinct : (l.filterMap f).Nodup) (inside : a ∈ l) (inside' : a' ∈ l) (found : f a = some b)
    (found' : f a' = some b) : a = a' := by
  have apart : l.Pairwise fun x y => ∀ b, f x = some b → ∀ b', f y = some b' → b ≠ b' :=
    List.pairwise_filterMap.1 distinct
  have symmetric : Std.Symm fun x y => ∀ b, f x = some b → ∀ b', f y = some b' → b ≠ b' :=
    ⟨fun _ _ differ b first b' second => (differ b' second b first).symm⟩
  by_contra other
  exact List.Pairwise.forall apart inside inside' other b found b found' rfl

namespace Change

variable {changes : List Change} {change : Change} {name old : String} {names : List String}
  {t : Table}

theorem oldName?_of_ofOldName? (found : ofOldName? changes old = some change) :
    change.oldName? = some old := by
  simpa using List.find?_some found

theorem mem_of_ofOldName? (found : ofOldName? changes old = some change) : change ∈ changes :=
  List.mem_of_find?_eq_some found

theorem oldName?_ne_of_ofOldName? (unlisted : ofOldName? changes old = none)
    (inside : change ∈ changes) : change.oldName? ≠ some old := by
  simpa using List.find?_eq_none.1 unlisted change inside

theorem ofOldName?_append (changes more : List Change) (old : String) :
    ofOldName? (changes ++ more) old = (ofOldName? changes old).or (ofOldName? more old) :=
  List.find?_append ..

theorem eq_drop_of_isDrop (listed : ofOldName? changes old = some change)
    (drops : change.isDrop = true) : change = .drop old := by
  have named := oldName?_of_ofOldName? listed
  cases change with
  | drop => cases named; rfl
  | add => cases drops
  | modify => cases drops

/-- What a change that fits a table changes is a column of the table. -/
theorem mem_columnNames_of_oldName? (listed : change.isAdd = true ∨ change.name ∈ t.columnNames)
    (named : change.oldName? = some name) : name ∈ t.columnNames := by
  cases change with
  | add => cases named
  | drop | modify =>
    cases named
    exact listed.resolve_left nofun

/-- No column is changed in two ways. -/
def Consistent (changes : List Change) : Prop :=
  ∀ a ∈ changes, ∀ b ∈ changes, a.oldName? = b.oldName? → a.oldName? ≠ none → a = b

/-- In a consistent list every change of something old comes about. -/
theorem Consistent.finalName?_of_mem (h : Consistent changes) (inside : change ∈ changes)
    (named : change.oldName? = some old) : finalName? changes old = change.newName? := by
  cases first : ofOldName? changes old with
  | none => exact absurd named (oldName?_ne_of_ofOldName? first inside)
  | some change' =>
    have named' := oldName?_of_ofOldName? first
    have same := h change' (mem_of_ofOldName? first) change inside (named'.trans named.symm)
      (by simp [named'])
    rw [finalName?, first, same]

/-- In a consistent list, what has a name now ends up with it, if the name either was kept or
is listed as added. -/
theorem Consistent.finalName?_of_formerName? (h : Consistent changes)
    (kept : .add name ∈ changes ∨ ∃ old, finalName? changes old = some name)
    (former : formerName? changes name = some old) : finalName? changes old = some name := by
  unfold formerName? at former
  split at former
  case h_1 change listed =>
    have new : change.newName? = some name := by simpa using List.find?_some listed
    exact (h.finalName?_of_mem (List.mem_of_find?_eq_some listed) former).trans new
  case h_2 unlisted =>
    cases former
    have unlisted ⦃change : Change⦄ (inside : change ∈ changes) : change.newName? ≠ some name := by
      simpa using List.find?_eq_none.1 unlisted change inside
    obtain added | ⟨old, final⟩ := kept
    · exact absurd rfl (unlisted added)
    · unfold finalName? at final
      split at final
      case h_1 change first => exact absurd final (unlisted (mem_of_ofOldName? first))
      case h_2 untouched => cases final; rw [finalName?, untouched]

/-- What ends up with a name is found again from it, if the name is not added and nothing else is
renamed to it. -/
theorem formerName?_of_finalName? (final : finalName? changes old = some name)
    (kept : .add name ∉ changes) (alone : ∀ other, .modify other name ∈ changes → other = old) :
    formerName? changes name = some old := by
  unfold formerName?
  split
  case h_1 change first =>
    have inside := List.mem_of_find?_eq_some first
    have new : change.newName? = some name := by simpa using List.find?_some first
    cases change with
    | add => cases new; exact absurd inside kept
    | drop => cases new
    | modify other => cases new; exact congrArg some (alone other inside)
  case h_2 unlisted =>
    have unlisted ⦃change : Change⦄ (inside : change ∈ changes) : change.newName? ≠ some name := by
      simpa using List.find?_eq_none.1 unlisted change inside
    unfold finalName? at final
    split at final
    case h_1 change first => exact absurd final (unlisted (mem_of_ofOldName? first))
    case h_2 => exact final.symm

theorem newName?_eq_none_iff : change.newName? = none ↔ change.isDrop = true := by
  cases change <;> simp [newName?, isDrop]

def addedNames (changes : List Change) : List String := (changes.filter isAdd).map Change.name

theorem mem_addedNames : name ∈ addedNames changes ↔ .add name ∈ changes := by
  simp only [addedNames, List.mem_map, List.mem_filter]
  constructor
  · rintro ⟨change, ⟨inside, adds⟩, rfl⟩
    cases change with
    | add => exact inside
    | drop | modify => cases adds
  · intro inside
    exact ⟨.add name, ⟨inside, rfl⟩, rfl⟩

/-- A list changes nothing twice and nothing that is not there, and no two of the names in the end,
of what is left and of what is added, are the same. -/
structure Reversible (changes : List Change) (names : List String) : Prop where
  once : (changes.filterMap oldName?).Nodup
  distinct : names.Nodup
  listed : ∀ change ∈ changes, ∀ old, change.oldName? = some old → old ∈ names
  apart : (names.filterMap (finalName? changes) ++ addedNames changes).Nodup

namespace Reversible

variable (h : Reversible changes names)

include h

theorem consistent : Consistent changes := by
  intro a inside b inside' same something
  obtain ⟨old, named⟩ := Option.ne_none_iff_exists'.1 something
  exact eq_of_nodup_filterMap h.once inside inside' named (same ▸ named)

/-- What is left has no name that is added. -/
theorem not_added (inside : old ∈ names) (final : finalName? changes old = some name) :
    .add name ∉ changes := by
  intro added
  exact List.disjoint_of_nodup_append h.apart (List.mem_filterMap.2 ⟨old, inside, final⟩)
    (mem_addedNames.2 added)

/-- Something renamed to a name is what ends up with it. -/
theorem eq_of_modify (inside : old ∈ names) (final : finalName? changes old = some name)
    {other : String} (renamed : .modify other name ∈ changes) : other = old :=
  eq_of_nodup_filterMap (List.Nodup.of_append_left h.apart) (h.listed _ renamed other rfl) inside
    (h.consistent.finalName?_of_mem renamed rfl) final

theorem formerName?_added (added : .add name ∈ changes) : formerName? changes name = none := by
  unfold formerName?
  split
  case h_1 change first =>
    have inside := List.mem_of_find?_eq_some first
    have new : change.newName? = some name := by simpa using List.find?_some first
    cases change with
    | add => rfl
    | drop => cases new
    | modify old =>
      cases new
      exact absurd added (h.not_added (h.listed _ inside old rfl)
        (h.consistent.finalName?_of_mem inside rfl))
  case h_2 unlisted => simpa [newName?] using List.find?_eq_none.1 unlisted _ added

end Reversible

/-- Such a list is read backwards to undo what it is read forwards to do: what is left is found
again from the name it has in the end, what was added had no name before, and just what the list
drops has no name in the end. -/
theorem inverse_of_reversible (h : Reversible changes names) :
    (∀ old ∈ names, ∀ name, finalName? changes old = some name →
      formerName? changes name = some old) ∧
    (∀ name ∈ addedNames changes, formerName? changes name = none) ∧
    ∀ old ∈ names,
      finalName? changes old = none ↔ (ofOldName? changes old).any (·.isDrop) = true := by
  refine ⟨fun old inside name final => ?_, fun name added => ?_, fun old _ => ?_⟩
  · exact formerName?_of_finalName? final (h.not_added inside final)
      fun _ => h.eq_of_modify inside final
  · exact h.formerName?_added (mem_addedNames.1 added)
  · unfold finalName?
    cases ofOldName? changes old with
    | none => simp
    | some change => exact newName?_eq_none_iff

/-- Two names that are exchanged, one that is freed and given to something else, and one that
something new takes over. -/
theorem inverse_of_reversible_exchanged :
    let changes := [.add "note", .modify "low" "high", .modify "high" "low", .drop "note",
      .modify "price" "cost", .modify "fee" "price"]
    let names := ["low", "high", "note", "price", "fee", "number"]
    Reversible changes names ∧
      (∀ old ∈ names, ∀ name, finalName? changes old = some name →
        formerName? changes name = some old) ∧
      (∀ name ∈ addedNames changes, formerName? changes name = none) ∧
      ∀ old ∈ names,
        finalName? changes old = none ↔ (ofOldName? changes old).any (·.isDrop) = true := by
  intro changes names
  have h : Reversible changes names := {
    once := by decide
    distinct := by decide
    listed := by decide
    apart := by decide }
  exact ⟨h, inverse_of_reversible h⟩

end Change

end GroupedTables
