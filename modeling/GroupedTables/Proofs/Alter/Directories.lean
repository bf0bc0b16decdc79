import GroupedTables.Proofs.Alter.Swapping
import GroupedTables.Proofs.Catalog.Histories
import Mathlib.Logic.Function.Basic

/-!
# Directories of tables

A swap does not need to know much of where its tables are kept: a name stands for one table or
for none, and to create, rename or drop a table changes what the names stand for in the one way
there is, or changes nothing. That is a directory. Tables in memory are one, although nothing in
them maps names to tables: every table tells its own name, and no two tell the same.
-/

namespace GroupedTables

open GroupedTables.Action
open scoped Unbounded

abbrev Names := TableName → Option TableId

namespace Names

variable {names : Names} {a b name old new : TableName} {id : TableId}

def bound (names : Names) (name : TableName) (id : TableId) : Names :=
  Function.update names name (some id)

def freed (names : Names) (name : TableName) : Names := Function.update names name none

/-- A table is given another name. -/
def moved (names : Names) (a b : TableName) : Names :=
  Function.update (names.freed a) b (names a)

theorem freed_bound (free : names name = none) : (names.bound name id).freed name = names := by
  rw [freed, bound, Function.update_idem, ← free, Function.update_eq_self]

theorem ne_of_free (there : (names a).isSome) (free : names b = none) : a ≠ b := by
  rintro rfl
  rw [free] at there
  cases there

/-- A table that was given a free name can be given its old name. -/
theorem free_moved (there : (names a).isSome) (free : names b = none) :
    names.moved a b a = none ∧ names.moved a b b ≠ none := by
  constructor
  · rw [moved, Function.update_of_ne (ne_of_free there free), freed, Function.update_self]
  · rw [moved, Function.update_self]
    exact Option.isSome_iff_ne_none.1 there

/-- A name that was free is free again when the table is given its old name. -/
theorem moved_moved (there : (names a).isSome) (free : names b = none) :
    (names.moved a b).moved b a = names := by
  have apart := ne_of_free there free
  funext x
  simp only [moved, freed, Function.update_apply]
  split_ifs <;> simp_all

/-- A new table that takes the place of an old one, with a name to build it under and one to
move the old one to. -/
theorem swapped (there : (names name).isSome) (unused : names new = none)
    (free : names.bound new id old = none) :
    (((names.bound new id).moved name old).moved new name).freed old = names.bound name id := by
  have apart : name ≠ new := ne_of_free there unused
  have apart' : old ≠ new := by
    rintro rfl
    rw [bound, Function.update_self] at free
    cases free
  have unused' : names old = none := by rwa [bound, Function.update_of_ne apart'] at free
  have apart'' : name ≠ old := ne_of_free there unused'
  funext x
  simp only [moved, freed, bound, Function.update_apply]
  split_ifs <;> simp_all

variable {labels : TableId → Option TableName}

/-- The tables have the names that stand for them, each only one. -/
def Labels (names : Names) (labels : TableId → Option TableName) : Prop :=
  ∀ name id, names name = some id ↔ labels id = some name

namespace Labels

variable (h : names.Labels labels)

include h

/-- What the names stand for can be read off the tables. -/
theorem unique {names' : Names} (h' : names'.Labels labels) : names = names' :=
  funext fun name => Option.ext fun id => (h name id).trans (h' name id).symm

theorem bound (free : names name = none) (unnamed : labels id = none) :
    (names.bound name id).Labels (Function.update labels id (some name)) := by
  intro a k
  have here := h a k
  have taken := h a id
  simp only [Names.bound, Function.update_apply]
  grind

theorem freed (has : labels id = some name) :
    (names.freed name).Labels (Function.update labels id none) := by
  intro a k
  have here := h a k
  have held := (h name id).2 has
  simp only [Names.freed, Function.update_apply]
  grind

theorem moved (has : labels id = some a) (free : names b = none) :
    (names.moved a b).Labels (Function.update labels id (some b)) := by
  have held : names a = some id := (h a id).2 has
  have other : a ≠ b := ne_of_free (Option.isSome_iff_exists.2 ⟨id, held⟩) free
  have free' : names.freed a b = none := by rwa [Names.freed, Function.update_of_ne other.symm]
  have moved := (h.freed has).bound free' (Function.update_self id none labels)
  rwa [Function.update_idem, Names.bound, ← held] at moved

end Labels

end Names

variable {σ α : Type} {tables : TableActions σ} {copier : Copier σ}

/-- Tables are kept under names. What is asked of a call is what it does if it succeeds and what
can be the reason if it fails; a call that fails changes no name. -/
structure Directory (tables : TableActions σ) where
  /-- The states there can be. -/
  Valid : σ → Prop
  names : σ → Names
  create (s : σ) (definition : Table) : Valid s → WP (tables.create definition)
    (fun id t => (names s definition.name = none ∧ ∀ name, names s name ≠ some id) ∧
      Valid t ∧ names t = (names s).bound definition.name id)
    (fun _ t => (names s definition.name).isSome ∧ Valid t ∧ names t = names s) s
  rename (s : σ) (name newName : TableName) : Valid s → WP (tables.rename name newName)
    (fun _ t => ((names s name).isSome ∧ names s newName = none) ∧
      Valid t ∧ names t = (names s).moved name newName)
    (fun _ t => (names s name = none ∨ (names s newName).isSome) ∧ Valid t ∧ names t = names s) s
  drop (s : σ) (name : TableName) : Valid s → WP (tables.drop name)
    (fun _ t => Valid t ∧ names t = (names s).freed name)
    (fun _ t => names s name = none ∧ Valid t ∧ names t = names s) s

/-- A copier changes no name, whether it succeeds or fails. -/
def Directory.Spares (dir : Directory tables) (copier : Copier σ) : Prop :=
  ∀ s source destination, dir.Valid s → WP (copier source destination)
    (fun _ t => dir.Valid t ∧ dir.names t = dir.names s)
    (fun _ t => dir.Valid t ∧ dir.names t = dir.names s) s

namespace Catalog

variable {c : Catalog} {k id : TableId} {name : TableName} {t definition : Table}

def holder (c : Catalog) : Names := fun name => (c.tableNamed? name).map Table.id

def label (c : Catalog) (k : TableId) : Option TableName := (c.tables.get? k).map Table.name

theorem label_eq_some_iff :
    c.label k = some name ↔ ∃ t, c.tables.get? k = some t ∧ t.name = name :=
  Option.map_eq_some_iff

theorem labels_holder (numbered : c.Numbered) (distinct : c.DistinctNames) :
    c.holder.Labels c.label := by
  intro name k
  rw [holder, Option.map_eq_some_iff, label_eq_some_iff]
  constructor
  · rintro ⟨t, named, rfl⟩
    exact ⟨t, numbered.get?_of_tableNamed? named⟩
  · rintro ⟨t, there, rfl⟩
    exact ⟨t, distinct.tableNamed? numbered there, numbered.id_eq there⟩

theorem label_created :
    (c.created definition).label =
      Function.update c.label (c.nextId + 1) (some definition.name) := by
  funext k
  rw [label, get?_created, Function.update_apply]
  split
  · rfl
  · rfl

theorem label_renamed (there : c.tables.get? id = some t) :
    (c.renamed id name).label = Function.update c.label id (some name) := by
  funext k
  rw [Function.update_apply]
  split
  case isTrue same => rw [label, same, get?_renamed_self there, Option.map_some]
  case isFalse other => rw [label, get?_renamed_of_ne other, label]

theorem label_dropped : (c.removed id t).regrouped.label = Function.update c.label id none := by
  have label_eq (c : Catalog) (k : TableId) : c.label k = (c.bodies.get? k).map Table.name := by
    rw [bodies, OrderedMap.get?_map, Option.map_map]
    rfl
  funext k
  rw [label_eq, bodies_regrouped, bodies_removed, OrderedMap.get?_erase, Function.update_apply]
  split
  · rfl
  · rw [label_eq]

/-- Names are kept: what is told twice agrees, and no two tables have one name. -/
structure Kept (c : Catalog) : Prop extends Intact c where
  distinct : c.DistinctNames

namespace Kept

variable (h : c.Kept)

include h

theorem labels : c.holder.Labels c.label := labels_holder h.toNumbered h.distinct

theorem unnamed (absent : c.tables.get? id = none) : c.holder name ≠ some id := by
  intro held
  obtain ⟨t, there, _⟩ := label_eq_some_iff.1 ((h.labels name id).1 held)
  rw [absent] at there
  cases there

theorem created (free : c.tableNamed? definition.name = none) :
    (c.created definition).Kept ∧
      (c.created definition).holder = c.holder.bound definition.name (c.nextId + 1) := by
  have kept : (c.created definition).Kept := ⟨h.toIntact.created, h.distinct.created free⟩
  have fresh : c.label (c.nextId + 1) = none := by
    rw [label, h.fresh_table (Nat.lt_succ_self _), Option.map_none]
  have bound := h.labels.bound (congrArg (Option.map Table.id) free) fresh
  rw [← label_created] at bound
  exact ⟨kept, kept.labels.unique bound⟩

theorem renamed (named : c.tableNamed? t.name = some t) (free : c.tableNamed? name = none) :
    (c.renamed t.id name).Kept ∧ (c.renamed t.id name).holder = c.holder.moved t.name name := by
  have kept : (c.renamed t.id name).Kept := ⟨h.toIntact.renamed, h.distinct.renamed free⟩
  obtain ⟨there, _⟩ := h.get?_of_tableNamed? named
  have moved := h.labels.moved (label_eq_some_iff.2 ⟨t, there, rfl⟩)
    (congrArg (Option.map Table.id) free)
  rw [← label_renamed there] at moved
  exact ⟨kept, kept.labels.unique moved⟩

theorem dropped (named : c.tableNamed? t.name = some t) :
    (c.removed t.id t).regrouped.Kept ∧
      (c.removed t.id t).regrouped.holder = c.holder.freed t.name := by
  have kept : (c.removed t.id t).regrouped.Kept := by
    refine ⟨h.toIntact.removed.regrouped, h.distinct.of_bodies fun k b there => ?_⟩
    rw [bodies_regrouped, bodies_removed] at there
    exact OrderedMap.get?_of_erase there
  obtain ⟨there, _⟩ := h.get?_of_tableNamed? named
  have freed := h.labels.freed (label_eq_some_iff.2 ⟨t, there, rfl⟩)
  rw [← label_dropped (t := t)] at freed
  exact ⟨kept, kept.labels.unique freed⟩

end Kept

end Catalog

namespace Memory

open Catalog

variable {m : Memory} {name : TableName} {post : α → Memory → Prop}
  {fails : Fault → Memory → Prop}

theorem wp_edit_of_unnamed {act : Table → Edit α} (unnamed : m.catalog.tableNamed? name = none)
    (refused : ∀ f, f.Foreseen → fails f m) :
    WP (edit do act (← (← get).tableNamed name)) post fails m := by
  simp only [edit, wp_bind, wp_within, wp_allOrNothing, wp_get, wp_lift]
  refine ⟨fun t found => ?_, fun f failed => refused f (foresees_tableNamed _ _ f failed)⟩
  rw [tableNamed_eq_ok_iff, unnamed] at found
  cases found

/-- Tables in memory are kept under their names. -/
def directory : Directory tableActions where
  Valid m := m.catalog.Kept
  names m := m.catalog.holder
  create m definition kept := by
    refine wp_createTable (fun taken _ _ => ⟨?_, kept, rfl⟩) fun free => ?_
    · rwa [holder, Option.isSome_map]
    · obtain ⟨kept', bound⟩ := kept.created free
      have unused : m.catalog.holder definition.name = none := congrArg (Option.map Table.id) free
      exact ⟨⟨unused, fun _ => kept.unnamed (kept.fresh_table (Nat.lt_succ_self _))⟩, kept', bound⟩
  rename m name newName kept := by
    cases named : m.catalog.tableNamed? name with
    | none =>
      have nobody : m.catalog.holder name = none := congrArg (Option.map Table.id) named
      refine (wp_bind _ _).2 (wp_edit_of_unnamed named fun _ _ => ?_)
      exact ⟨.inl nobody, kept, rfl⟩
    | some t =>
      obtain ⟨_, rfl⟩ := kept.get?_of_tableNamed? named
      refine wp_renameTable kept.toNumbered named (fun taken _ _ => ⟨.inr ?_, kept, rfl⟩) ?_
      · rwa [holder, Option.isSome_map]
      · intro free
        obtain ⟨kept', moved⟩ := kept.renamed named free
        have there : (m.catalog.holder t.name).isSome := by rw [holder, named]; rfl
        exact ⟨⟨there, congrArg (Option.map Table.id) free⟩, kept', moved⟩
  drop m name kept := by
    cases named : m.catalog.tableNamed? name with
    | none =>
      have nobody : m.catalog.holder name = none := congrArg (Option.map Table.id) named
      exact (wp_bind _ _).2 (wp_edit_of_unnamed named fun _ _ => ⟨nobody, kept, rfl⟩)
    | some t =>
      obtain ⟨_, rfl⟩ := kept.get?_of_tableNamed? named
      obtain ⟨kept', freed⟩ := kept.dropped named
      exact (wp_of_ok (dropTable_eq kept.toIntact named)).2 ⟨kept', freed⟩

/-- A copier that only adds rows leaves the names alone. -/
theorem directory_spares {copier : Copier Memory} (confined : Confined copier) :
    directory.Spares copier := by
  intro m source destination kept
  have same ⦃m' : Memory⦄ (h : AddsRows m destination m') :
      directory.Valid m' ∧ directory.names m' = directory.names m :=
    ⟨show m'.catalog.Kept from h.catalog.symm ▸ kept, congrArg holder h.catalog⟩
  exact (confined source destination m).mono (fun _ _ h => same h) fun _ _ h => same h

end Memory

end GroupedTables
