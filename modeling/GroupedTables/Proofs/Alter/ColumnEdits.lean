import GroupedTables.Proofs.Alter.Draft
import GroupedTables.Proofs.Catalog.Definition

/-!
# Drafting columns

Each edit of a column keeps a draft. A column that becomes generated gets a sequence with a
fresh id, so none that another column draws from; a column that is no longer generated, or
has its increment changed, takes its old sequence away, which no other column draws from.
-/

namespace GroupedTables

open GroupedTables.Action Catalog

namespace Narrowing

variable {α β : Type}

/-- An action that always succeeds, with one value whatever was told before. -/
def Steady (act : Action Context α) : Prop :=
  ∃ a, ∀ k, WP act (fun a' _ => a' = a) (fun _ _ => False) k

theorem steady_pure (a : α) : Steady (pure a) := ⟨a, fun _ => rfl⟩

theorem steady_tell (given kept : String) : Steady (Context.tell given kept) :=
  ⟨⟨⟩, fun _ => rfl⟩

theorem Steady.bind {act : Action Context α} {next : α → Action Context β} (first : Steady act)
    (rest : ∀ a, Steady (next a)) : Steady (act >>= next) := by
  obtain ⟨a, first⟩ := first
  obtain ⟨b, rest⟩ := rest a
  refine ⟨b, fun k => (wp_bind _ _).2 ((first k).mono_post ?_)⟩
  rintro _ k rfl
  exact rest k

theorem Steady.ite {c : Prop} [Decidable c] {act other : Action Context α} (first : Steady act)
    (second : Steady other) : Steady (if c then act else other) := by
  split
  · exact first
  · exact second

theorem steady_clamp (greatest least value : Int) : Steady (clamp greatest least value) :=
  .ite ((steady_tell _ _).bind fun _ => steady_pure _)
    (.ite ((steady_tell _ _).bind fun _ => steady_pure _) (steady_pure _))

theorem steady_numericStart (text : String) : Steady (numericStart text) :=
  .ite (steady_pure _) ((steady_tell _ _).bind fun _ => steady_pure _)

theorem steady_literalNumber (text : String) : Steady (literalNumber text) := by
  unfold literalNumber
  split
  · exact steady_pure _
  · exact (steady_numericStart text).bind fun _ => steady_pure _

theorem steady_literalFor (d : TypeDescriptor) (text : String) : Steady (literalFor d text) := by
  unfold literalFor
  split
  · exact steady_pure _
  · refine (steady_literalNumber text).bind fun x => .bind ?_ fun _ => steady_pure _
    exact .ite ((steady_tell _ _).bind fun _ => steady_clamp _ _ _) (steady_clamp _ _ _)

/-- The text of a literal that is made one of another type. -/
def fitted (d : TypeDescriptor) (text : String) : String :=
  match ((literalFor d text).outcome {}).1 with
  | .ok kept => kept
  | .error _ => text

/-- Fitting a literal to a type may be told, but never fails, and comes to the same text whatever
was told before. -/
theorem wp_literalFor (d : TypeDescriptor) (text : String) (k : Context) :
    WP (literalFor d text) (fun kept _ => kept = fitted d text) (fun _ _ => False) k := by
  obtain ⟨a, steady⟩ := steady_literalFor d text
  have same : fitted d text = a := by
    obtain ⟨_, _, ended, rfl⟩ := exists_ok_of_wp (steady {})
    rw [fitted, Action.outcome, ended]
  rw [same]
  exact steady k

end Narrowing

def ColumnEdit.addedNames : ColumnEdit → List String
  | .add definition => [definition.name]
  | .modify .. => []

namespace Drafts

variable {live c : Catalog} {current t : Table} {column : Column} {f : Column → Column}
  {fails : Fault → Catalog → Prop} {names : List String}

/-- What the edits of a draft promise: they keep it, or fail with a fault that is excused. -/
abbrev Keeps {α : Type} (live : Catalog) (current : Table) (names : List String) (act : Edit α)
    (c : Catalog) : Prop :=
  WP act (fun _ => Drafts live current names) (fun f _ => Excused live f) c

theorem drafted (h : Drafts live current names c) (there : c.tables.get? current.id = some t) :
    Drafted live current names t := by
  obtain ⟨t', there', drafted⟩ := h.itself
  cases there'.symm.trans there
  exact drafted

/-- A fresh id is drawn from by no column. -/
theorem not_drawn (h : Drafts live current names c) (apart : live.SequencesApart)
    (there : c.tables.get? current.id = some t) : c.nextId + 1 ∉ t.sequenceIds := by
  intro drawn
  obtain ⟨q, supplied⟩ := (h.supply apart).1 there _ drawn
  exact Nat.not_succ_le_self _ (h.intact.sequences supplied).2

/-- The sequence of a generated column is there unless a sequence is drawn from twice. -/
theorem excused_missing (h : Drafts live current names c)
    (there : c.tables.get? current.id = some t)
    {name : String} (listed : t.column? name = some column) {s : SequenceId}
    (generated : column.identity = some s) (missing : c.sequences.get? s = none) :
    Excused live (.internal (.missingSequence s)) := by
  intro apart
  have drawn : s ∈ t.sequenceIds :=
    List.mem_filterMap.2 ⟨column, List.mem_of_find?_eq_some listed, generated⟩
  obtain ⟨q, supplied⟩ := (h.supply apart).1 there s drawn
  rw [missing] at supplied
  cases supplied

theorem new_of_supplying {q : Sequence} ⦃s : SequenceId⦄ ⦃q' : Sequence⦄
    (there : (c.supplying q).sequences.get? s = some q') :
    s = c.nextId + 1 ∨ c.sequences.get? s = some q' := by
  rw [get?_sequences_supplying] at there
  split at there
  case isTrue same => exact .inl same
  case isFalse => exact .inr there

variable (wf : live.WellFormed) (found : live.tables.get? current.id = some current)

include wf found

/-- Adding a column that draws from nothing. -/
theorem withColumn (h : Drafts live current names c) (there : c.tables.get? current.id = some t)
    (fresh : column.name ∉ t.columnNames) (plain : column.identity = none) :
    Drafts live current (names ++ [column.name])
      (c.editing current.id (·.withColumn column)) := by
  refine h.revise_table wf found there (fun _ => ⟨rfl, rfl, rfl⟩) rfl
    (h.drafted there).positioned.withColumn ?_ ?_ ?_
  · rw [Table.columnNames_withColumn, (h.drafted there).listed]
  · rw [Table.columnNames_withColumn, ← List.concat_eq_append]
    exact (List.nodup_concat _ _).2 ⟨fresh, (h.drafted there).distinct⟩
  · rw [Table.sequenceIds_withColumn, plain]
    exact List.append_nil _

/-- Adding a column that draws from a new sequence. -/
theorem withGenerated (h : Drafts live current names c) (there : c.tables.get? current.id = some t)
    (fresh : column.name ∉ t.columnNames) (generated : column.identity = some (c.nextId + 1))
    (q : Sequence) :
    Drafts live current (names ++ [column.name])
      ((c.supplying q).editing current.id (·.withColumn column)) := by
  have drafted := h.drafted there
  have drawn : (t.withColumn column).sequenceIds = t.sequenceIds ++ [c.nextId + 1] := by
    rw [Table.sequenceIds_withColumn, generated]
    rfl
  refine h.revise (f := (·.withColumn column)) wf found there (fun _ => ⟨rfl, rfl, rfl⟩)
    ⟨drafted.name, drafted.positioned.withColumn, ?_, ?_, fun s inside => ?_⟩ (Nat.le_succ _)
    ((h.intact.sequences.mono (Nat.le_succ _)).insert rfl (Nat.le_refl _))
    new_of_supplying fun apart => ?_
  · rw [Table.columnNames_withColumn, drafted.listed]
  · rw [Table.columnNames_withColumn, ← List.concat_eq_append]
    exact (List.nodup_concat _ _).2 ⟨fresh, drafted.distinct⟩
  · rw [drawn] at inside
    obtain inside | inside := List.mem_append.1 inside
    · exact drafted.drawn s inside
    · rw [List.mem_singleton.1 inside]
      exact .inr (Nat.lt_succ_of_le h.counter)
  · rw [drawn]
    refine ⟨?_, fun s inside => ?_, fun s q' _ kept => ?_⟩
    · rw [← List.concat_eq_append]
      exact (List.nodup_concat _ _).2 ⟨h.not_drawn apart there, (h.supply apart).2 t there⟩
    · rw [get?_sequences_supplying]
      split
      · exact ⟨_, rfl⟩
      case isFalse other =>
        obtain inside | inside := List.mem_append.1 inside
        · exact (h.supply apart).1 there s inside
        · exact absurd (List.mem_singleton.1 inside) other
    · rw [get?_sequences_supplying]
      split
      · exact ⟨_, rfl⟩
      · exact ⟨q', kept⟩

/-- Adding a column of a statement. -/
theorem keeps_addColumn (h : Drafts live current names c) (d : ColumnDefinition) :
    Keeps live current (names ++ [d.name]) (Draft.addColumn current.id d) c := by
  obtain ⟨t, there, _⟩ := h.itself
  unfold Draft.addColumn
  cases d.identity with
  | none =>
    exact wp_addColumn there (fun _ _ => Excused.of_foreseen) fun fresh =>
      h.withColumn wf found there fresh rfl
  | some identity =>
    simp only [Draft.createIdentity, wp_bind, wp_get, wp_lift_of_ok (table_of_get? there),
      wp_of_ok addSequence_eq]
    exact wp_addColumn (c := c.supplying _) there (fun _ _ => Excused.of_foreseen) fun fresh =>
      h.withGenerated wf found there fresh rfl _

/-- Changing a column that goes on drawing from what it drew from. -/
theorem withColumnChanged (h : Drafts live current names c)
    (there : c.tables.get? current.id = some t)
    {name : String} (listed : t.column? name = some column)
    (same : (f column).name = column.name ∧ (f column).position = column.position)
    (drawn : (f column).identity = column.identity) :
    Drafts live current names (c.editing current.id (·.withColumnChanged name f)) := by
  obtain ⟨front, back, before, after⟩ := Table.sequenceIds_withColumnChanged (f := f) listed
  refine h.revise_table wf found there (fun _ => ⟨rfl, rfl, rfl⟩) rfl
    ((h.drafted there).positioned.withColumnChanged listed same.2) ?_ ?_ ?_
  · rw [Table.columnNames_withColumnChanged listed same.1]
    exact (h.drafted there).listed
  · rw [Table.columnNames_withColumnChanged listed same.1]
    exact (h.drafted there).distinct
  · rw [after, before, drawn]

/-- Changing what a column draws from, to a new sequence or to none. The old sequence goes. -/
theorem withIdentityChanged (h : Drafts live current names c)
    (there : c.tables.get? current.id = some t) {name : String}
    (listed : t.column? name = some column)
    (same : (f column).name = column.name ∧ (f column).position = column.position)
    {m : OrderedMap Sequence} {n : Nat} (le : c.nextId ≤ n) (keyed : m.Keyed Sequence.id n)
    (drawn : ∀ s ∈ (f column).identity, s = c.nextId + 1 ∧ ∃ q, m.get? s = some q)
    (new : ∀ ⦃s q⦄, m.get? s = some q → s = c.nextId + 1 ∨ c.sequences.get? s = some q)
    (kept : ∀ s q, column.identity ≠ some s → c.sequences.get? s = some q →
      ∃ q', m.get? s = some q') :
    Drafts live current names
      { c.editing current.id (·.withColumnChanged name f) with sequences := m, nextId := n } := by
  obtain ⟨front, back, before, after⟩ := Table.sequenceIds_withColumnChanged (f := f) listed
  have drafted := h.drafted there
  have others ⦃s : SequenceId⦄ (inside : s ∈ front ++ back) : s ∈ t.sequenceIds := by
    rw [before]
    simp only [List.mem_append] at inside ⊢
    exact inside.elim (fun inside => .inl (.inl inside)) .inr
  refine h.revise (f := (·.withColumnChanged name f)) wf found there (fun _ => ⟨rfl, rfl, rfl⟩)
    ⟨drafted.name, drafted.positioned.withColumnChanged listed same.2, ?_, ?_, fun s inside => ?_⟩
    le keyed new fun apart => ?_
  · rw [Table.columnNames_withColumnChanged listed same.1]
    exact drafted.listed
  · rw [Table.columnNames_withColumnChanged listed same.1]
    exact drafted.distinct
  · rw [after, List.append_assoc, List.mem_append, List.mem_append, Option.mem_toList] at inside
    obtain inside | inside | inside := inside
    · exact drafted.drawn s (others (List.mem_append_left _ inside))
    · rw [(drawn s inside).1]
      exact .inr (Nat.lt_succ_of_le h.counter)
    · exact drafted.drawn s (others (List.mem_append_right _ inside))
  · have nodup := (h.supply apart).2 t there
    rw [before] at nodup
    have differ ⦃s : SequenceId⦄ (inside : s ∈ front ++ back) : column.identity ≠ some s := by
      intro generated
      rw [generated, Option.toList_some, List.append_assoc, List.singleton_append,
        List.nodup_middle] at nodup
      exact (List.nodup_cons.1 nodup).1 inside
    have supplied ⦃s : SequenceId⦄ (inside : s ∈ front ++ back) : ∃ q, m.get? s = some q := by
      obtain ⟨q, supplied⟩ := (h.supply apart).1 there s (others inside)
      exact kept s q (differ inside) supplied
    change (t.withColumnChanged name f).sequenceIds.Nodup ∧
      (∀ s ∈ (t.withColumnChanged name f).sequenceIds, ∃ q, m.get? s = some q) ∧ _
    rw [after]
    refine ⟨Table.nodup_of_replaced nodup fun s generated => .inr ?_, fun s inside => ?_,
      fun s q outside there' => kept s q (fun generated => ?_) there'⟩
    · rw [← before, (drawn s generated).1]
      exact h.not_drawn apart there
    · rw [List.append_assoc, List.mem_append, List.mem_append, Option.mem_toList] at inside
      obtain inside | inside | inside := inside
      · exact supplied (List.mem_append_left _ inside)
      · exact (drawn s inside).2
      · exact supplied (List.mem_append_right _ inside)
    · apply outside
      rw [before, generated]
      simp

theorem keeps_setDefault (h : Drafts live current names c)
    (there : c.tables.get? current.id = some t)
    (listed : t.column? column.name = some column) (default : Option ColumnDefault) :
    Keeps live current names (Draft.setDefault current.id column default) c := by
  unfold Draft.setDefault
  cases generated : column.identity with
  | none =>
    apply (wp_editColumn there listed).2
    exact h.withColumnChanged wf found there listed ⟨rfl, rfl⟩ generated.symm
  | some s =>
    simp only [wp_bind, wp_discard]
    apply wp_removeSequence (h.excused_missing there listed generated)
    intro q supplied
    rw [wp_editColumn (by exact there) listed]
    refine h.withIdentityChanged wf found there listed ⟨rfl, rfl⟩ (Nat.le_refl _)
      h.intact.sequences.erase (by simp) (fun s' q' kept => .inr (OrderedMap.get?_of_erase kept))
      fun s' q' other kept => ⟨q', ?_⟩
    rw [OrderedMap.get?_erase, if_neg, kept]
    rintro rfl
    exact other generated

theorem keeps_changeIdentity (h : Drafts live current names c)
    (there : c.tables.get? current.id = some t) (listed : t.column? column.name = some column)
    (name : TableName) (change : IdentityChange) :
    Keeps live current names (Draft.changeIdentity current.id name column change) c := by
  cases change with
  | create identity =>
    simp only [Draft.changeIdentity, Draft.createIdentity, wp_bind, wp_get, wp_ite,
      wp_lift_of_ok (table_of_get? there), wp_of_ok addSequence_eq]
    refine ⟨fun _ => Excused.of_foreseen trivial, fun plain => ?_⟩
    rw [wp_editColumn (by exact there) listed]
    refine h.withIdentityChanged wf found there listed ⟨rfl, rfl⟩ (Nat.le_succ _)
      ((h.intact.sequences.mono (Nat.le_succ _)).insert rfl (Nat.le_refl _)) ?_
      new_of_supplying fun s q _ kept => ?_
    · rintro s ⟨⟩
      exact ⟨rfl, _, get?_sequences_supplying.trans (if_pos rfl)⟩
    · rw [get?_sequences_supplying]
      split
      · exact ⟨_, rfl⟩
      · exact ⟨q, kept⟩
  | setIncrement increment =>
    simp only [Draft.changeIdentity]
    cases generated : column.identity with
    | none => exact Excused.of_foreseen trivial
    | some old =>
      simp only [wp_bind]
      refine wp_removeSequence (h.excused_missing there listed generated)
        fun q supplied => ?_
      rw [wp_bind, wp_of_ok addSequence_eq, wp_editColumn (by exact there) listed]
      refine h.withIdentityChanged wf found there listed ⟨rfl, rfl⟩ (Nat.le_succ _)
        ((h.intact.sequences.erase.mono (Nat.le_succ _)).insert rfl (Nat.le_refl _)) ?_
        (fun s q' kept => (new_of_supplying kept).imp_right OrderedMap.get?_of_erase)
        fun s q' other kept => ?_
      · rintro s ⟨⟩
        exact ⟨rfl, _, get?_sequences_supplying.trans (if_pos rfl)⟩
      · rw [get?_sequences_supplying]
        split
        · exact ⟨_, rfl⟩
        · refine ⟨q', ?_⟩
          change (c.sequences.erase old).get? s = some q'
          rw [OrderedMap.get?_erase, if_neg, kept]
          rintro rfl
          exact other generated
  | restart => exact Excused.of_foreseen trivial

/-- What the edits of a draft promise, with the run of the statement. -/
abbrev KeepsRun {α : Type} (live : Catalog) (current : Table) (names : List String)
    (act : Action Draft α) (d : Draft) : Prop :=
  WP act (fun _ d => Drafts live current names d.catalog) (fun f _ => Excused live f) d

omit wf found in
theorem keeps_edit {α : Type} {act : Edit α} {d : Draft} 
    (h : Keeps live current names act d.catalog) : KeepsRun live current names (Draft.edit act) d :=
  wp_within.2 h

theorem keeps_setType {d : Draft} (h : Drafts live current names d.catalog)
    (there : d.catalog.tables.get? current.id = some t)
    (listed : t.column? column.name = some column) (descriptor : TypeDescriptor) :
    KeepsRun live current names (Draft.setType current.id column descriptor) d := by
  have change (default : Option ColumnDefault) (k : Context) :
      KeepsRun live current names (Draft.edit (Catalog.editColumn current.id column.name
        ({ · with descriptor, default }))) ⟨d.catalog, k⟩ :=
    keeps_edit ((wp_editColumn there listed).2
      (h.withColumnChanged wf found there listed ⟨rfl, rfl⟩ rfl))
  unfold KeepsRun Draft.setType
  dsimp only
  split
  · rw [wp_bind, wp_map]
    refine wp_within.2 ((Narrowing.wp_literalFor _ _ _).mono (fun text k _ => ?_)
      fun _ _ => False.elim)
    exact change _ k
  · exact change _ d.context

/-- Changing a column keeps a draft. -/
theorem keeps_modifyColumn {d : Draft} (h : Drafts live current names d.catalog) (name : String)
    (modification : ColumnModification) :
    KeepsRun live current names (Draft.modifyColumn current.id name modification) d := by
  obtain ⟨t, there, _⟩ := h.itself
  unfold Draft.modifyColumn
  simp only [wp_bind, wp_get, wp_lift_of_ok (table_of_get? there)]
  cases listed : t.column? name with
  | none => exact Excused.of_foreseen trivial
  | some column =>
    obtain rfl := Table.name_of_column? listed
    have nullable (nullable : Bool) :
        Keeps live current names (Catalog.editColumn current.id column.name ({ · with nullable }))
          d.catalog :=
      (wp_editColumn there listed).2 (h.withColumnChanged wf found there listed ⟨rfl, rfl⟩ rfl)
    cases modification with
    | default value => exact keeps_edit (h.keeps_setDefault wf found there listed value)
    | null => exact keeps_edit (nullable true)
    | notNull => exact keeps_edit (nullable false)
    | type descriptor => exact h.keeps_setType wf found there listed descriptor
    | identity change =>
      exact keeps_edit (h.keeps_changeIdentity wf found there listed t.name change)

/-- Of all edits of columns, only adding one changes the list of their names. -/
theorem keeps_applyColumnEdit {d : Draft} (h : Drafts live current names d.catalog)
    (e : ColumnEdit) :
    KeepsRun live current (names ++ e.addedNames) (Draft.applyColumnEdit current.id e) d := by
  cases e with
  | add definition => exact keeps_edit (h.keeps_addColumn wf found definition)
  | modify name modification =>
    rw [ColumnEdit.addedNames, List.append_nil]
    exact h.keeps_modifyColumn wf found name modification

end Drafts

end GroupedTables
