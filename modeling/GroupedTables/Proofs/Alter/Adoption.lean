import GroupedTables.Alter.Memory
import GroupedTables.Proofs.Alter.Plan
import GroupedTables.Proofs.Catalog.Sequences
import Mathlib.Data.List.Forall2

/-!
# Giving a table its sequences

However an alteration is carried out, there comes a moment when the live catalog holds the
table as it is to be, joined to nothing, with columns that still draw from the sequences of
the draft. From there on each generated column is pointed at a live sequence like its staged
one. The columns are taken one after the other, and the names of those still to come tell how
far that has gone.
-/

namespace GroupedTables

open GroupedTables.Action Catalog Memory
open scoped Unbounded

variable {live staged c c' : Catalog} {current d t : Table} {target : Staged} {a b : Column}
  {x k : TableId} {s : SequenceId} {q : Sequence} {name : String} {pending : List String}

/-- A column is like a staged one and draws from a live sequence like the staged one, which
differs at most in its id. -/
inductive Adopts (staged live : Catalog) (a : Column) : Column → Prop where
  | plain (none : a.identity = none) : Adopts staged live a a
  | generated {s s' : SequenceId} {q : Sequence} (drawn : a.identity = some s)
      (planned : staged.sequences.get? s = some q)
      (supplied : live.sequences.get? s' = some { q with id := s' }) :
      Adopts staged live a { a with identity := some s' }

/-- A table as it is to be that draws from live sequences, except for some columns that still
draw from the sequences of the draft. -/
def Adopting (staged live : Catalog) (pending : List String) (a b : Column) : Prop :=
  if a.name ∈ pending then b = a else Adopts staged live a b

/-- A column draws from what it is to draw from, unless that is new, and then from what is new. -/
inductive Renews (live : Catalog) (a b : Column) : Prop where
  | same (same : b.identity = a.identity)
  | new {s s' : SequenceId} (planned : a.identity = some s) (drawn : b.identity = some s')
    (above : live.nextId < s) (above' : live.nextId < s')

/-- The sequences of a table that is given its columns: live ones are drawn from as in the draft,
and new ones are only there for columns that have been settled. -/
structure Tended (live : Catalog) (d : Table) (x : TableId) (pending : List String) (c : Catalog) :
    Prop where
  renews : ∀ ⦃t⦄, c.tables.get? x = some t → List.Forall₂ (Renews live) d.columns t.columns
  drawn : ∀ ⦃t s q⦄, c.tables.get? x = some t → c.sequences.get? s = some q → live.nextId < s →
    ∃ b ∈ t.columns, b.name ∉ pending ∧ b.identity = some s
  stocked : ∀ s ∈ d.sequenceIds, s ≤ live.nextId → c.sequences.get? s = live.sequences.get? s

/-- Sequences were added, and all of them are new. -/
structure Replenished (live c c' : Catalog) : Prop where
  kept : ∀ ⦃s q⦄, c.sequences.get? s = some q → c'.sequences.get? s = some q
  old : ∀ ⦃s q⦄, c'.sequences.get? s = some q → s ≤ live.nextId → c.sequences.get? s = some q

theorem Replenished.refl : Replenished live c c := ⟨fun _ _ => id, fun _ _ there _ => there⟩

theorem Replenished.trans {c'' : Catalog} (h : Replenished live c c')
    (h' : Replenished live c' c'') : Replenished live c c'' :=
  ⟨fun _ _ there => h'.kept (h.kept there), fun _ _ there old => h.old (h'.old there old) old⟩

/-- The live catalog with the table as it is to be in its place, under one id or another. The
other tables are as they were, and so are the joins that do not touch the table. -/
structure Seated (live staged : Catalog) (current d : Table) (x : TableId)
    (pending : List String) (c : Catalog) : Prop where
  intact : c.Intact
  acyclic : c.Acyclic
  counter : live.nextId ≤ c.nextId
  itself : ∃ t, c.tables.get? x = some t ∧ t.name = current.name ∧ t.indexes = d.indexes ∧
    List.Forall₂ (Adopting staged c pending) d.columns t.columns
  others : ∀ k, k ≠ x → c.bodies.get? k = if k = current.id then none else live.bodies.get? k
  apart : ∀ i j, j.parent ≠ x → j.child ≠ x → (c.joins.get? i = some j ↔
    live.joins.get? i = some j ∧ j.parent ≠ current.id ∧ j.child ≠ current.id)
  supply : ∀ k t, k ≠ x → c.tables.get? k = some t →
    ∀ s ∈ t.sequenceIds, ∃ q, c.sequences.get? s = some q
  tended : Tended live d x pending c

namespace Adopts

theorem name_eq (h : Adopts staged live a b) : b.name = a.name := by cases h <;> rfl

theorem position_eq (h : Adopts staged live a b) : b.position = a.position := by cases h <;> rfl

theorem descriptor_eq (h : Adopts staged live a b) : b.descriptor = a.descriptor := by
  cases h <;> rfl

theorem mono (h : Adopts staged c a b)
    (kept : ∀ s q, b.identity = some s → c.sequences.get? s = some q →
      c'.sequences.get? s = some q) : Adopts staged c' a b := by
  cases h with
  | plain none => exact .plain none
  | generated drawn planned supplied => exact .generated drawn planned (kept _ _ rfl supplied)

theorem exists_sequence (h : Adopts staged c a b) (drawn : b.identity = some s) :
    ∃ q, c.sequences.get? s = some q := by
  cases h with
  | plain none => rw [none] at drawn; cases drawn
  | generated _ _ supplied => cases drawn; exact ⟨_, supplied⟩

end Adopts

theorem Adopting.name_eq (h : Adopting staged live pending a b) : b.name = a.name := by
  unfold Adopting at h
  split at h
  · rw [h]
  · exact Adopts.name_eq h

theorem Adopting.descriptor_eq (h : Adopting staged live pending a b) :
    b.descriptor = a.descriptor := by
  unfold Adopting at h
  split at h
  · rw [h]
  · exact Adopts.descriptor_eq h

theorem Adopting.mono (h : Adopting staged c pending a b)
    (kept : ∀ s q, b.identity = some s → c.sequences.get? s = some q →
      c'.sequences.get? s = some q) : Adopting staged c' pending a b := by
  unfold Adopting at h ⊢
  split
  case isTrue later => rwa [if_pos later] at h
  case isFalse now => rw [if_neg now] at h; exact h.mono kept

/-- Related lists are related member by member, and each member is one of its list. -/
theorem forall₂_mem {α β : Type} {R : α → β → Prop} {l : List α} {l' : List β}
    (h : List.Forall₂ R l l') : List.Forall₂ (fun a b => R a b ∧ a ∈ l ∧ b ∈ l') l l' := by
  induction h with
  | nil => exact .nil
  | cons first _ ih =>
    refine .cons ⟨first, .head _, .head _⟩ (ih.imp fun a b => ?_)
    exact fun ⟨related, left, right⟩ => ⟨related, .tail _ left, .tail _ right⟩

/-- A member of the second of two related lists has its counterpart in the first one. -/
theorem exists_of_forall₂ {α β : Type} {R : α → β → Prop} {l : List α} {l' : List β} {b : β}
    (h : List.Forall₂ R l l') (inside : b ∈ l') : ∃ a ∈ l, R a b := by
  induction h with
  | nil => cases inside
  | cons first _ ih =>
    obtain rfl | inside := List.mem_cons.1 inside
    · exact ⟨_, .head _, first⟩
    · obtain ⟨a, listed, related⟩ := ih inside
      exact ⟨a, .tail _ listed, related⟩

/-- A table has the types of the staged one. -/
theorem typeOf?_of_adopting
    (columns : List.Forall₂ (Adopting staged c pending) d.columns t.columns) (name : String) :
    t.typeOf? name = d.typeOf? name := by
  unfold Table.typeOf? Table.column?
  generalize d.columns = l, t.columns = l' at columns
  induction columns with
  | nil => rfl
  | cons first _ ih =>
    rw [List.find?_cons, List.find?_cons, first.name_eq]
    split
    · rw [Option.map_some, Option.map_some, first.descriptor_eq]
    · exact ih

theorem mem_identities : (name, s) ∈ identities t ↔
    ∃ a ∈ t.columns, a.identity = some s ∧ a.name = name := by
  simp only [identities, List.mem_filterMap, Option.map_eq_some_iff, Prod.mk.injEq]
  constructor
  · rintro ⟨a, inside, _, drawn, rfl, rfl⟩
    exact ⟨a, inside, drawn, rfl⟩
  · rintro ⟨a, inside, drawn, rfl⟩
    exact ⟨a, inside, s, drawn, rfl, rfl⟩

theorem sequenceIds_identities : (identities t).map (·.2) = t.sequenceIds := by
  rw [identities, List.map_filterMap, Table.sequenceIds]
  apply List.filterMap_congr
  intro a _
  cases a.identity <;> rfl

theorem identities_congr (same : t.columns = d.columns) : identities t = identities d := by
  rw [identities, same, identities]

theorem nodup_identities (distinct : t.columnNames.Nodup) :
    ((identities t).map (·.1)).Nodup := by
  have general (columns : List Column) :
      ((columns.filterMap fun c => c.identity.map fun s => (c.name, s)).map (·.1)).Sublist
        (columns.map (·.name)) := by
    induction columns with
    | nil => exact .slnil
    | cons a rest ih =>
      cases drawn : a.identity with
      | none => simpa [drawn] using ih.cons a.name
      | some s => simpa [drawn] using ih.cons_cons a.name
  exact distinct.sublist (general t.columns)

/-- A table whose columns all still draw from the draft. -/
theorem adopting_identities : List.Forall₂ (Adopting staged c ((identities d).map (·.1)))
    d.columns d.columns := by
  apply List.forall₂_same.2
  intro a inside
  unfold Adopting
  split
  case isTrue => rfl
  case isFalse plain =>
    refine .plain ?_
    cases drawn : a.identity with
    | none => rfl
    | some s =>
      have listed := mem_identities.2 ⟨a, inside, drawn, rfl⟩
      exact absurd (List.mem_map.2 ⟨(a.name, s), listed, rfl⟩) plain

/-- The catalog after a column was given a new sequence like another one. -/
def Catalog.supplyingColumn (c : Catalog) (x : TableId) (name : String) (q : Sequence) : Catalog :=
  (c.supplying q).editing x (·.withColumnChanged name ({ · with identity := some (c.nextId + 1) }))

theorem get?_supplyingColumn_of_ne (other : k ≠ x) :
    (c.supplyingColumn x name q).tables.get? k = c.tables.get? k := by
  rw [supplyingColumn, get?_editing, if_neg other]
  rfl

theorem get?_sequences_supplyingColumn : (c.supplyingColumn x name q).sequences.get? s =
    if s = c.nextId + 1 then some { q with id := c.nextId + 1 } else c.sequences.get? s :=
  get?_sequences_supplying

theorem replenished_supplyingColumn (numbered : c.Numbered) (counter : live.nextId ≤ c.nextId) :
    Replenished live c (c.supplyingColumn x name q) := by
  refine ⟨fun s q' there => ?_, fun s q' there old => ?_⟩
  · exact get?_sequences_supplying_of_get? numbered there
  · rwa [get?_sequences_supplyingColumn, if_neg] at there
    exact Nat.ne_of_lt (Nat.lt_succ_of_le (Nat.le_trans old counter))

/-- Once a column is settled, only the columns after it still draw from the draft. -/
theorem adopting_settled {columns columns' : List Column} {f : Column → Column}
    (h : List.Forall₂ (Adopting staged c (name :: pending)) columns columns')
    (fresh : name ∉ pending)
    (adopts : ∀ a ∈ columns, a.name = name → Adopts staged c' a (f a))
    (others : ∀ b : Column, b.name ≠ name → f b = b)
    (kept : ∀ ⦃s q⦄, c.sequences.get? s = some q → c'.sequences.get? s = some q) :
    List.Forall₂ (Adopting staged c' pending) columns (columns'.map f) := by
  rw [List.forall₂_map_right_iff]
  apply (forall₂_mem h).imp
  rintro a b ⟨adopting, inside, _⟩
  by_cases here : a.name = name
  · rw [Adopting, if_pos (here ▸ .head _)] at adopting
    rw [adopting, Adopting, if_neg (here ▸ fresh)]
    exact adopts a inside here
  · rw [others b (adopting.name_eq ▸ here)]
    refine Adopting.mono ?_ fun s q _ there => kept there
    unfold Adopting at adopting ⊢
    simpa only [List.mem_cons, here, false_or] using adopting

theorem renews_self (columns : List Column) : List.Forall₂ (Renews live) columns columns :=
  List.forall₂_same.2 fun _ _ => .same rfl

namespace Tended

/-- A table with the columns it is to have, among sequences of which none is new. -/
theorem of_columns (columns : ∀ ⦃t⦄, c.tables.get? x = some t → t.columns = d.columns)
    (old : ∀ ⦃s q⦄, c.sequences.get? s = some q → s ≤ live.nextId)
    (stocked : ∀ s ∈ d.sequenceIds, c.sequences.get? s = live.sequences.get? s) :
    Tended live d x pending c where
  renews t there := by
    rw [columns there]
    exact renews_self d.columns
  drawn _ s q _ supplied new := absurd new (Nat.not_lt.2 (old supplied))
  stocked s planned _ := stocked s planned

/-- A live sequence that a column is to draw from is one it does draw from. -/
theorem mem_sequenceIds (h : Tended live d x pending c) (there : c.tables.get? x = some t)
    (planned : s ∈ d.sequenceIds) (old : s ≤ live.nextId) : s ∈ t.sequenceIds := by
  obtain ⟨a, inside, generated⟩ := List.mem_filterMap.1 planned
  obtain ⟨b, inside', (related : Renews live a b)⟩ := exists_of_forall₂ (h.renews there).flip inside
  cases related with
  | same same => exact List.mem_filterMap.2 ⟨b, inside', same.trans generated⟩
  | new planned _ above _ =>
    cases generated.symm.trans planned
    exact absurd above (Nat.not_lt.2 old)

/-- A live sequence that a column draws from is one it is to draw from. -/
theorem mem_of_drawn (h : Tended live d x pending c) (there : c.tables.get? x = some t)
    (drawn : s ∈ t.sequenceIds) (old : s ≤ live.nextId) : s ∈ d.sequenceIds := by
  obtain ⟨b, inside, generated⟩ := List.mem_filterMap.1 drawn
  obtain ⟨a, inside', related⟩ := exists_of_forall₂ (h.renews there) inside
  cases related with
  | same same => exact List.mem_filterMap.2 ⟨a, inside', same.symm.trans generated⟩
  | new _ drawn _ above =>
    cases generated.symm.trans drawn
    exact absurd above (Nat.not_lt.2 old)

/-- Tables that are moved about draw from what they drew from. -/
theorem move (h : Tended live d x pending c) (bodies : c'.bodies = c.bodies)
    (sequences : c'.sequences = c.sequences) : Tended live d x pending c' := by
  have before ⦃t : Table⦄ (there : c'.tables.get? x = some t) :
      ∃ u, c.tables.get? x = some u ∧ u.columns = t.columns := by
    obtain ⟨u, found, same⟩ := exists_of_bodies bodies.symm there
    refine ⟨u, found, ?_⟩
    rw [← Table.body_columns, same, Table.body_columns]
  refine ⟨fun t there => ?_, fun t s q there supplied new => ?_, ?_⟩
  · obtain ⟨u, found, same⟩ := before there
    exact same ▸ h.renews found
  · obtain ⟨u, found, same⟩ := before there
    exact same ▸ h.drawn found (sequences ▸ supplied) new
  · rw [sequences]
    exact h.stocked

/-- A column that draws from a new sequence is settled with a fresh one. -/
theorem adopted (h : Tended live d x (name :: pending) c) (counter : live.nextId ≤ c.nextId)
    (there : c.tables.get? x = some t) (distinct : t.columnNames.Nodup) (fresh : name ∉ pending)
    (inside : b ∈ t.columns) (named : b.name = name)
    (new : ∀ b ∈ t.columns, b.name = name → ∃ s, b.identity = some s ∧ live.nextId < s) :
    Tended live d x pending (c.supplyingColumn x name q) := by
  have itself : (c.supplyingColumn x name q).tables.get? x = _ := get?_editing_self there
  refine ⟨fun u there' => ?_, fun u s q' there' supplied above => ?_, fun s planned old => ?_⟩
  · cases itself.symm.trans there'
    rw [Table.columns_withColumnChanged distinct, List.forall₂_map_right_iff]
    refine (forall₂_mem (h.renews there)).imp fun a b ⟨related, _, listed⟩ => ?_
    split
    case isFalse => exact related
    case isTrue here =>
      obtain ⟨s, generated, above⟩ := new b listed here
      have later : live.nextId < c.nextId + 1 := Nat.lt_succ_of_le counter
      cases related with
      | same same => exact .new (same.symm.trans generated) rfl above later
      | new planned _ above' _ => exact .new planned rfl above' later
  · cases itself.symm.trans there'
    rw [Table.columns_withColumnChanged distinct]
    rw [get?_sequences_supplyingColumn] at supplied
    split at supplied
    case isTrue same =>
      refine ⟨_, List.mem_map.2 ⟨b, inside, if_pos named⟩, named ▸ fresh, ?_⟩
      rw [same]
    case isFalse =>
      obtain ⟨b', listed, settled, drawn⟩ := h.drawn there supplied above
      have other : b'.name ≠ name := fun same => settled (same ▸ .head _)
      exact ⟨b', List.mem_map.2 ⟨b', listed, if_neg other⟩,
        fun later => settled (.tail _ later), drawn⟩
  · have other : s ≠ c.nextId + 1 := Nat.ne_of_lt (Nat.lt_succ_of_le (Nat.le_trans old counter))
    rw [get?_sequences_supplyingColumn, if_neg other]
    exact h.stocked s planned old

end Tended

namespace Seated

/-- Changes to sequences alone keep a table seated, if none is added and none is lost that is drawn
from. -/
theorem resupply (h : Seated live staged current d x pending c) (intact : c'.Intact)
    (le : c.nextId ≤ c'.nextId) (tables : c'.tables = c.tables) (joins : c'.joins = c.joins)
    (fewer : ∀ s q, c'.sequences.get? s = some q → c.sequences.get? s = some q)
    (kept : ∀ s q, c.usesSequence s = true → c.sequences.get? s = some q →
      c'.sequences.get? s = some q) : Seated live staged current d x pending c' := by
  obtain ⟨t, there, name, indexes, columns⟩ := h.itself
  refine ⟨intact, h.acyclic.mono fun i j => joins ▸ id, Nat.le_trans h.counter le,
    ⟨t, tables ▸ there, name, indexes, ?_⟩, fun k other => ?_, ?_, ?_,
    tables ▸ h.tended.renews, fun u s q there' supplied => ?_, fun s planned old => ?_⟩
  · apply (forall₂_mem columns).imp
    rintro a b ⟨adopting, _, inside⟩
    refine adopting.mono fun s q drawn => kept s q (usesSequence_iff.2 ⟨x, t, there, ?_⟩)
    exact List.mem_filterMap.2 ⟨b, inside, drawn⟩
  · rw [bodies, tables]
    exact h.others k other
  · rw [joins]
    exact h.apart
  · intro k u other there' s drawn
    rw [tables] at there'
    obtain ⟨q, supplied⟩ := h.supply k u other there' s drawn
    exact ⟨q, kept s q (usesSequence_iff.2 ⟨k, u, there', drawn⟩) supplied⟩
  · exact h.tended.drawn (tables ▸ there') (fewer s q supplied)
  · rw [← h.tended.stocked s planned old]
    have used : c.usesSequence s = true :=
      usesSequence_iff.2 ⟨x, t, there, h.tended.mem_sequenceIds there planned old⟩
    cases supplied : c.sequences.get? s with
    | some q => exact kept s q used supplied
    | none =>
      refine Option.eq_none_iff_forall_ne_some.2 fun q supplied' => ?_
      rw [fewer s q supplied'] at supplied
      cases supplied

/-- As long as columns are settled one by one they keep their names. -/
theorem columnNames_eq (h : Seated live staged current d x pending c)
    (there : c.tables.get? x = some t) : t.columnNames = d.columnNames := by
  obtain ⟨u, found, _, _, columns⟩ := h.itself
  cases there.symm.trans found
  rw [← List.forall₂_eq_eq_eq, Table.columnNames, Table.columnNames,
    List.forall₂_map_left_iff, List.forall₂_map_right_iff]
  exact columns.flip.imp fun _ _ (adopting : Adopting staged c pending _ _) => adopting.name_eq

/-- A column that draws from a live sequence already is settled. -/
theorem settle_live (h : Seated live staged current d x (name :: pending) c)
    (fresh : name ∉ pending) (adopts : ∀ a ∈ d.columns, a.name = name → Adopts staged c a a) :
    Seated live staged current d x pending c := by
  obtain ⟨t, there, title, indexes, columns⟩ := h.itself
  have settled : List.Forall₂ (Adopting staged c pending) d.columns (t.columns.map id) :=
    adopting_settled columns fresh adopts (fun _ _ => rfl) fun _ _ => id
  rw [List.map_id] at settled
  refine ⟨h.intact, h.acyclic, h.counter, ⟨t, there, title, indexes, settled⟩, h.others, h.apart,
    h.supply, h.tended.renews, fun u s q there' supplied new => ?_, h.tended.stocked⟩
  obtain ⟨b, listed, waiting, drawn⟩ := h.tended.drawn there' supplied new
  exact ⟨b, listed, fun later => waiting (.tail _ later), drawn⟩

/-- A column that is to draw from a new sequence is settled with one like it. -/
theorem settle_new (h : Seated live staged current d x (name :: pending) c)
    (fresh : name ∉ pending) (distinct : d.columnNames.Nodup) (inside : a ∈ d.columns)
    (named : a.name = name) (drawn : ∀ a ∈ d.columns, a.name = name → a.identity = some s)
    (planned : staged.sequences.get? s = some q) (new : live.nextId < s) :
    Seated live staged current d x pending (c.supplyingColumn x name q) := by
  obtain ⟨t, there, title, indexes, columns⟩ := h.itself
  have names := h.columnNames_eq there
  have replenished : Replenished live c (c.supplyingColumn x name q) :=
    replenished_supplyingColumn h.intact.toNumbered h.counter
  have settled : List.Forall₂ (Adopting staged (c.supplyingColumn x name q) pending) d.columns
      (t.withColumnChanged name ({ · with identity := some (c.nextId + 1) })).columns := by
    rw [Table.columns_withColumnChanged (names ▸ distinct)]
    refine adopting_settled columns fresh (fun a inside here => ?_) (fun b other => if_neg other)
      replenished.kept
    rw [if_pos here]
    exact .generated (drawn a inside here) planned
      (get?_sequences_supplyingColumn.trans (if_pos rfl))
  have tended : Tended live d x pending (c.supplyingColumn x name q) := by
    obtain ⟨b, listed, (adopting : Adopting staged c (name :: pending) a b)⟩ :=
      exists_of_forall₂ columns.flip inside
    refine h.tended.adopted h.counter there (names ▸ distinct) fresh listed
      (adopting.name_eq.trans named) fun b' listed' here => ⟨s, ?_, new⟩
    obtain ⟨a', inside', adopting'⟩ := exists_of_forall₂ columns listed'
    have same : a'.name = name := adopting'.name_eq.symm.trans here
    rw [Adopting, if_pos (same ▸ .head _)] at adopting'
    rw [adopting', drawn a' inside' same]
  refine ⟨h.intact.supplying.editing (fun _ => rfl) (fun _ => rfl) fun _ => rfl, h.acyclic,
    Nat.le_succ_of_le h.counter, ⟨_, get?_editing_self there, title, indexes, settled⟩,
    fun k other => ?_, h.apart, fun k u other there' s' drawn' => ?_, tended⟩
  · rw [get?_bodies, get?_supplyingColumn_of_ne other, ← get?_bodies]
    exact h.others k other
  · rw [get?_supplyingColumn_of_ne other] at there'
    obtain ⟨q', supplied⟩ := h.supply k u other there' s' drawn'
    exact ⟨q', replenished.kept supplied⟩

/-- One column is pointed at its live sequence. No sequence is lost, and no join is touched. -/
theorem wp_adoptSequence (h : Seated live target.catalog current d x (name :: pending) c)
    (fits : target.Fits live current) (planned : target.catalog.tables.get? current.id = some d)
    (fresh : name ∉ pending) (listed : (name, s) ∈ identities d) :
    WP (adoptSequence x target name s)
      (fun _ c' => Seated live target.catalog current d x pending c' ∧ c'.joins = c.joins ∧
        Replenished live c c')
      (fun _ _ => False) c := by
  obtain ⟨a, inside, generated, named⟩ := mem_identities.1 listed
  have own : s ∈ d.sequenceIds := List.mem_filterMap.2 ⟨a, inside, generated⟩
  obtain ⟨q, staged⟩ := supplied_of_valid fits.valid planned s own
  have distinct := (fits.drafts.drafted planned).distinct
  -- the column of this name is the only one that is settled now
  have drawn : ∀ b ∈ d.columns, b.name = name → b.identity = some s := by
    intro b inside' same
    rw [List.inj_on_of_nodup_map distinct inside' inside (same.trans named.symm), generated]
  obtain ⟨t, there, _⟩ := h.itself
  unfold adoptSequence
  simp only [wp_bind, wp_get, wp_lift_of_ok (sequence_of_get? staged), wp_ite, wp_pure]
  refine ⟨fun same => ⟨h.settle_live fresh fun b inside' here => ?_, trivial, .refl⟩,
    fun differs => ?_⟩
  · have supplied : c.sequences.get? s = some { q with id := s } := by
      rw [beq_iff_eq.1 same, ← (fits.drafts.intact.sequences staged).1]
    have adopted : Adopts target.catalog c b { b with identity := some s } :=
      .generated (drawn b inside' here) staged supplied
    rwa [← drawn b inside' here] at adopted
  · rw [wp_of_ok addSequence_eq, wp_of_ok (editTable_eq (by exact there))]
    have new : live.nextId < s := by
      -- a live sequence would have been found to be the same
      by_contra old
      have stocked := h.tended.stocked s own (Nat.not_lt.1 old)
      rw [fits.drafts.sourced staged (Nat.not_lt.1 old)] at stocked
      exact differs (beq_iff_eq.2 stocked)
    exact ⟨h.settle_new fresh distinct inside named drawn staged new, rfl,
      replenished_supplyingColumn h.intact.toNumbered h.counter⟩

/-- All generated columns are pointed at their live sequences. -/
theorem wp_adoptSequences (h : Seated live target.catalog current d x ((identities d).map (·.1)) c)
    (fits : target.Fits live current) (planned : target.catalog.tables.get? current.id = some d)
    (there : c.tables.get? x = some t) (same : t.columns = d.columns) :
    WP (adoptSequences x target)
      (fun _ c' => Seated live target.catalog current d x [] c' ∧ c'.joins = c.joins ∧
        Replenished live c c')
      (fun _ _ => False) c := by
  unfold adoptSequences
  simp only [wp_bind, wp_get, wp_lift_of_ok (table_of_get? there), identities_congr same]
  refine wp_forM (fun rest c' => rest.Sublist (identities d) ∧
      Seated live target.catalog current d x (rest.map (·.1)) c' ∧ c'.joins = c.joins ∧
      Replenished live c c')
    ⟨.refl _, h, rfl, .refl⟩ (fun c' ended => ended.2) ?_
  rintro ⟨name, s⟩ rest c' ⟨part, seated, joins, replenished⟩
  have distinct := (nodup_identities (fits.drafts.drafted planned).distinct).sublist (part.map _)
  refine (seated.wp_adoptSequence fits planned (List.nodup_cons.1 distinct).1
    (part.subset (.head _))).mono_post fun _ c'' reached => ?_
  exact ⟨(List.sublist_cons_self _ _).trans part, reached.1, reached.2.1.trans joins,
    replenished.trans reached.2.2⟩

/-- A sequence that no column draws from may go. -/
theorem unsupplied (h : Seated live staged current d x pending c)
    (unused : c.usesSequence s = false) :
    Seated live staged current d x pending { c with sequences := c.sequences.erase s } := by
  refine h.resupply h.intact.unsupplied (Nat.le_refl _) rfl rfl
    (fun s' q' => OrderedMap.get?_of_erase) fun s' q' used supplied => ?_
  rw [OrderedMap.get?_erase, if_neg, supplied]
  rintro rfl
  rw [used] at unused
  cases unused

end Seated

/-- How far the sequences that the table drew from before have been swept. -/
structure Sweeping (live staged : Catalog) (current d : Table) (x : TableId) (before : Catalog)
    (old rest : List SequenceId) (c : Catalog) : Prop where
  seated : Seated live staged current d x [] c
  joins : c.joins = before.joins
  fewer : ∀ ⦃s q⦄, c.sequences.get? s = some q → before.sequences.get? s = some q
  /-- Those that were looked at and are still there are drawn from. -/
  swept : ∀ s ∈ old, s ∉ rest → ∀ q, c.sequences.get? s = some q → c.usesSequence s = true
  /-- Those still to come are there, if none is listed twice. -/
  orderly : (old.Nodup ∧ ∀ s ∈ old, ∃ q, before.sequences.get? s = some q) →
    rest.Nodup ∧ ∀ s ∈ rest, ∃ q, c.sequences.get? s = some q

namespace Sweeping

variable {before : Catalog} {old rest : List SequenceId}

theorem start (h : Seated live staged current d x [] c) :
    Sweeping live staged current d x c old old c :=
  ⟨h, rfl, fun _ _ => id, fun _ inside outside => absurd inside outside, id⟩

/-- A sequence that is drawn from stays. -/
theorem keep (h : Sweeping live staged current d x before old (s :: rest) c)
    (used : c.usesSequence s = true) : Sweeping live staged current d x before old rest c := by
  refine ⟨h.seated, h.joins, h.fewer, fun s' inside outside q there => ?_, fun sound => ?_⟩
  · by_cases same : s' = s
    · rw [same, used]
    · exact h.swept s' inside (by simp [same, outside]) q there
  · obtain ⟨distinct, stocked⟩ := h.orderly sound
    exact ⟨(List.nodup_cons.1 distinct).2, fun s' inside => stocked s' (.tail _ inside)⟩

/-- A sequence that is not drawn from goes. -/
theorem remove (h : Sweeping live staged current d x before old (s :: rest) c)
    (unused : c.usesSequence s = false) :
    Sweeping live staged current d x before old rest
      { c with sequences := c.sequences.erase s } := by
  refine ⟨h.seated.unsupplied unused, h.joins,
    fun s' q' there => h.fewer (OrderedMap.get?_of_erase there),
    fun s' inside outside q there => ?_, fun sound => ?_⟩
  · by_cases same : s' = s
    · rw [same, OrderedMap.get?_erase, if_pos rfl] at there
      cases there
    · exact h.swept s' inside (by simp [same, outside]) q (OrderedMap.get?_of_erase there)
  · obtain ⟨distinct, stocked⟩ := h.orderly sound
    obtain ⟨fresh, distinct⟩ := List.nodup_cons.1 distinct
    refine ⟨distinct, fun s' inside => ?_⟩
    obtain ⟨q', supplied⟩ := stocked s' (.tail _ inside)
    refine ⟨q', ?_⟩
    rw [OrderedMap.get?_erase, if_neg, supplied]
    rintro rfl
    exact fresh inside

end Sweeping

/-- Sequences that are not drawn from any more go. That can only fail if one of them is listed
twice, or is not there. -/
theorem Seated.wp_sweep {fails : Fault → Catalog → Prop} (h : Seated live staged current d x [] c)
    {old : List SequenceId}
    (broken : ¬ (old.Nodup ∧ ∀ s ∈ old, ∃ q, c.sequences.get? s = some q) → ∀ f c', fails f c') :
    WP (old.forM sweepSequence) (fun _ c' => Sweeping live staged current d x c old [] c')
      fails c := by
  refine wp_forM (Sweeping live staged current d x c old) (.start h) (fun _ => id) ?_
  intro s rest c' sweeping
  unfold sweepSequence
  simp only [wp_bind, wp_get, wp_ite, wp_discard]
  refine ⟨fun unused => ?_, fun used => sweeping.keep (by simpa using used)⟩
  refine wp_removeSequence (fun missing => broken (fun sound => ?_) _ _)
    fun q _ => sweeping.remove (by simpa using unused)
  obtain ⟨q, supplied⟩ := (sweeping.orderly sound).2 s (.head _)
  rw [missing] at supplied
  cases supplied

end GroupedTables
