import GroupedTables.Proofs.Catalog.Columns
import GroupedTables.Proofs.Catalog.Rooting
import Mathlib.Data.List.Nodup
import Mathlib.Data.List.Pairwise
import Mathlib.Tactic.ByContra

/-!
# What validation finds and what it guarantees

A catalog that passes its validation and whose entities are under their ids is intact, every
column of it stands at its position, and every generated column has its sequence. Together
these are the internal half of the check: where they hold, all that validation can still
find is what a statement is to blame for.
-/

namespace GroupedTables.Catalog

open Check

variable {c : Catalog} {k : TableId} {i : JoinId} {j : Join} {t p : Table}

/-- A catalog as it is between statements: entities under their ids, no two tables of one
name, and a validation that finds nothing. -/
structure WellFormed (c : Catalog) : Prop where
  numbered : c.Numbered
  names : (c.tables.values.map Table.name).Nodup
  valid : c.validate = .ok ()

/-- No sequence is drawn from by two columns. -/
def SequencesApart (c : Catalog) : Prop := (c.tables.values.flatMap Table.sequenceIds).Nodup

instance (c : Catalog) : Decidable c.WellFormed :=
  decidable_of_iff (c.Numbered ∧ (c.tables.values.map Table.name).Nodup ∧ c.validate = .ok ())
    ⟨fun ⟨numbered, names, valid⟩ => ⟨numbered, names, valid⟩,
      fun ⟨numbered, names, valid⟩ => ⟨numbered, names, valid⟩⟩

instance (c : Catalog) : Decidable c.SequencesApart :=
  inferInstanceAs (Decidable (c.tables.values.flatMap Table.sequenceIds).Nodup)

/-- Every column of every table stands at its position. -/
def Positioned (c : Catalog) : Prop := ∀ ⦃k t⦄, c.tables.get? k = some t → t.Positioned

/-- Every index is one of columns of its table. -/
def Indexed (c : Catalog) : Prop :=
  ∀ ⦃k t⦄, c.tables.get? k = some t → ∀ index ∈ t.indexes, checkIndex t index = .ok ()

/-- Every join pairs columns that can be compared. -/
def Paired (c : Catalog) : Prop :=
  ∀ ⦃i j p t⦄, c.joins.get? i = some j → c.tables.get? j.parent = some p →
    c.tables.get? j.child = some t → ∀ pair ∈ j.columns, checkPair p t pair = .ok ()

def customers : Table where
  id := 1
  name := ⟨"shop", "customer"⟩
  columns := [{ name := "number", descriptor := .ofType .bigInt, nullable := false
                identity := some 5 }]
  indexes := [.primaryOf ["number"]]
  group := some 4

/-- The orders of customers, joined by the number of the customer. -/
def orders : Table where
  id := 2
  name := ⟨"shop", "order"⟩
  columns := [{ name := "number", descriptor := .ofType .bigInt, nullable := false },
    { name := "customer", position := 1, descriptor := .ofType .bigInt }]
  indexes := [.primaryOf ["number"]]
  parentJoin := some 3
  group := some 4

def shop : Catalog where
  tables := .ofList [(1, customers), (2, orders)]
  joins := .ofList [(3, { id := 3, parent := 1, child := 2, columns := [⟨"number", "customer"⟩] })]
  groups := .ofList [(4, { id := 4, name := "customer", root := 1 })]
  sequences := .ofList [(5, { Sequence.ofStart "shop" "number" 1 1 with id := 5 })]
  nextId := 5

theorem shop_wellFormed : shop.WellFormed := by decide +kernel

theorem get?_shop_orders : shop.tables.get? orders.id = some orders := by decide +kernel

theorem ensure_eq_ok {condition : Bool} {breach : Breach} :
    ensure condition breach = .ok () ↔ condition = true := by
  cases condition <;> simp [ensure]

theorem checkColumns_eq_ok {columns : List Column} {position : Nat} :
    c.checkColumns t position columns = .ok () ↔
      (∀ i column, columns[i]? = some column → column.position = position + i) ∧
        ∀ column ∈ columns, ∀ s, column.identity = some s → ∃ q, c.sequences.get? s = some q := by
  induction columns generalizing position with
  | nil => simp [checkColumns]
  | cons first rest ih =>
    have head : c.checkColumn t position first = .ok () ↔ first.position = position ∧
        ∀ s, first.identity = some s → ∃ q, c.sequences.get? s = some q := by
      simp only [checkColumn, seq_eq_ok, ensure_eq_ok, beq_iff_eq, forM_eq_ok, discard_eq_ok,
        sequence_eq_ok_iff, Option.mem_toList]
    simp only [checkColumns, seq_eq_ok, head, ih, List.forall_mem_cons]
    constructor
    · rintro ⟨⟨here, drawn⟩, positions, supply⟩
      refine ⟨fun i column there => ?_, drawn, supply⟩
      cases i with
      | zero => cases there; exact here
      | succ i => rw [positions i column there]; omega
    · rintro ⟨positions, drawn, supply⟩
      refine ⟨⟨positions 0 first rfl, drawn⟩, fun i column there => ?_, supply⟩
      rw [positions (i + 1) column there]
      omega

/-- An index is checked for the names of its columns only. -/
theorem checkIndex_eq_ok {index : Index} :
    checkIndex t index = .ok () ↔ ∀ name ∈ index.columnNames, (t.typeOf? name).isSome := by
  simp only [Table.typeOf?_isSome_iff, ← Table.missingColumn?_eq_none_iff]
  unfold checkIndex
  cases t.missingColumn? index.columnNames <;> simp

theorem checkParentJoin_eq_ok :
    c.checkParentJoin t i = .ok () ↔ ∃ j p, c.joins.get? i = some j ∧ j.child = t.id ∧
      c.tables.get? j.parent = some p ∧ p.group = t.group := by
  rw [checkParentJoin, bind_eq_ok]
  simp only [seq_eq_ok]
  simp only [bind_eq_ok, ensure_eq_ok, beq_iff_eq, join_eq_ok_iff, table_eq_ok_iff]
  constructor
  · rintro ⟨j, found, back, p, above, grouped⟩
    exact ⟨j, p, found, back, above, grouped⟩
  · rintro ⟨j, p, found, back, above, grouped⟩
    exact ⟨j, found, back, p, above, grouped⟩

theorem checkJoined_eq_ok :
    c.checkJoined j = .ok () ↔ ∃ t p, c.tables.get? j.child = some t ∧ t.parentJoin = some j.id ∧
      c.tables.get? j.parent = some p ∧ ∀ pair ∈ j.columns, checkPair p t pair = .ok () := by
  rw [checkJoined, bind_eq_ok]
  simp only [seq_eq_ok]
  simp only [bind_eq_ok, ensure_eq_ok, beq_iff_eq, table_eq_ok_iff, forM_eq_ok]
  constructor
  · rintro ⟨t, below, back, p, above, pairs⟩
    exact ⟨t, p, below, back, above, pairs⟩
  · rintro ⟨t, p, below, back, above, pairs⟩
    exact ⟨t, below, back, p, above, pairs⟩

theorem validate_eq_ok :
    c.validate = .ok () ↔
      (∀ t ∈ c.tables.values, c.checkTable t = .ok ()) ∧
        ∀ j ∈ c.joins.values, c.checkJoined j = .ok () := by
  rw [validate, bind_eq_ok, ← forM_eq_ok, ← forM_eq_ok]
  constructor
  · rintro ⟨_, tables, joins⟩
    exact ⟨tables, joins⟩
  · rintro ⟨tables, joins⟩
    exact ⟨(), tables, joins⟩

theorem checkTable_eq_ok :
    c.checkTable t = .ok () ↔ c.checkColumns t 0 t.columns = .ok () ∧
      (∀ index ∈ t.indexes, checkIndex t index = .ok ()) ∧
        (∀ i, t.parentJoin = some i → c.checkParentJoin t i = .ok ()) ∧
          ∃ root, c.rootOf t.id = .ok root := by
  simp only [checkTable, seq_eq_ok, forM_eq_ok, discard_eq_ok, Option.mem_toList]

theorem positioned_of_valid (valid : c.validate = .ok ()) : c.Positioned := by
  intro k t there
  apply Table.positioned_iff.2
  intro i column found
  have passed := (validate_eq_ok.1 valid).1 t (OrderedMap.mem_values there)
  have placed := (checkColumns_eq_ok.1 (checkTable_eq_ok.1 passed).1).1 i column found
  omega

theorem supplied_of_valid (valid : c.validate = .ok ()) : c.Supplied := by
  intro k t there s drawn
  have passed := (validate_eq_ok.1 valid).1 t (OrderedMap.mem_values there)
  obtain ⟨column, inside, generated⟩ := List.mem_filterMap.1 drawn
  exact (checkColumns_eq_ok.1 (checkTable_eq_ok.1 passed).1).2 column inside s generated

theorem indexed_of_valid (valid : c.validate = .ok ()) : c.Indexed := fun _ t there =>
  (checkTable_eq_ok.1 ((validate_eq_ok.1 valid).1 t (OrderedMap.mem_values there))).2.1

theorem paired_of_valid (valid : c.validate = .ok ()) : c.Paired := by
  intro i j p t there above below
  obtain ⟨t', p', below', _, above', pairs⟩ :=
    checkJoined_eq_ok.1 ((validate_eq_ok.1 valid).2 j (OrderedMap.mem_values there))
  cases below.symm.trans below'
  cases above.symm.trans above'
  exact pairs

namespace Addressed

variable (h : c.Addressed) (valid : c.validate = .ok ())

include h valid

/-- What validation finds of a join: its two ends, and that the child names it and nothing else. -/
theorem exists_ends_of_valid (there : c.joins.get? i = some j) :
    ∃ t p, c.tables.get? j.child = some t ∧ t.parentJoin = some i ∧
      c.tables.get? j.parent = some p ∧ p.group = t.group := by
  obtain ⟨tables, joins⟩ := validate_eq_ok.1 valid
  obtain ⟨t, p, below, back, above, _⟩ :=
    checkJoined_eq_ok.1 (joins j (OrderedMap.mem_values there))
  rw [h.joins there] at back
  obtain ⟨j', p', found, _, above', grouped⟩ := checkParentJoin_eq_ok.1
    ((checkTable_eq_ok.1 (tables t (OrderedMap.mem_values below))).2.2.1 i back)
  cases found.symm.trans there
  exact ⟨t, p', below, back, above', grouped⟩

theorem linked_of_valid : c.Linked := by
  refine ⟨fun k i => ⟨fun hung => ?_, ?_⟩, fun i j there => ?_⟩
  · obtain ⟨t, there, named⟩ := exists_of_hook hung
    have passed := (validate_eq_ok.1 valid).1 t (OrderedMap.mem_values there)
    obtain ⟨j, _, found, child, _⟩ :=
      checkParentJoin_eq_ok.1 ((checkTable_eq_ok.1 passed).2.2.1 i named)
    exact ⟨j, found, child.trans (h.tables there)⟩
  · rintro ⟨j, there, rfl⟩
    obtain ⟨t, _, below, named, _⟩ := h.exists_ends_of_valid valid there
    exact (hook_of_get? below).trans named
  · obtain ⟨_, p, _, _, above, _⟩ := h.exists_ends_of_valid valid there
    exact ⟨p, above⟩

theorem shared_of_valid : c.Shared := by
  intro i j there
  obtain ⟨t, p, below, _, above, grouped⟩ := h.exists_ends_of_valid valid there
  rw [groupOf_of_get? below, groupOf_of_get? above, grouped]

theorem acyclic_of_valid : c.Acyclic := by
  apply (h.linked_of_valid valid).acyclic
  intro k t there
  have passed := (validate_eq_ok.1 valid).1 t (OrderedMap.mem_values there)
  rw [← h.tables there]
  exact (checkTable_eq_ok.1 passed).2.2.2

end Addressed

/-- What is under its ids and passes its validation is intact. -/
theorem Numbered.intact_of_valid (h : c.Numbered) (valid : c.validate = .ok ()) : c.Intact :=
  { h, h.addressed.linked_of_valid valid with shared := h.addressed.shared_of_valid valid }

/-- A join of a catalog without circles leads from one table to another one. -/
theorem Acyclic.parent_ne_child (h : c.Acyclic) (there : c.joins.get? i = some j) :
    j.parent ≠ j.child :=
  fun same => h j.child (.single (hangs_iff.2 ⟨i, j, there, same, rfl⟩))

namespace WellFormed

theorem intact (h : c.WellFormed) : c.Intact := h.numbered.intact_of_valid h.valid

theorem positioned (h : c.WellFormed) : c.Positioned := positioned_of_valid h.valid

theorem supplied (h : c.WellFormed) : c.Supplied := supplied_of_valid h.valid

theorem indexed (h : c.WellFormed) : c.Indexed := indexed_of_valid h.valid

theorem paired (h : c.WellFormed) : c.Paired := paired_of_valid h.valid

theorem acyclic (h : c.WellFormed) : c.Acyclic := h.numbered.addressed.acyclic_of_valid h.valid

theorem distinctNames (h : c.WellFormed) : c.DistinctNames := by
  intro k k' t t' there there' same
  have equal : t = t' := List.inj_on_of_nodup_map h.names (OrderedMap.mem_values there)
    (OrderedMap.mem_values there') same
  rw [← h.numbered.id_eq there, ← h.numbered.id_eq there', equal]

theorem tableNamed_eq (h : c.WellFormed) (there : c.tables.get? k = some t) :
    c.tableNamed t.name = .ok t :=
  tableNamed_eq_ok_iff.2 (h.distinctNames.tableNamed? h.numbered there)

end WellFormed

namespace SequencesApart

variable {k' : TableId} {u : Table} {s : SequenceId}

theorem nodup (h : c.SequencesApart) (there : c.tables.get? k = some t) : t.sequenceIds.Nodup :=
  (List.nodup_flatMap.1 h).1 t (OrderedMap.mem_values there)

theorem eq_of_mem (h : c.SequencesApart) (numbered : c.Numbered)
    (there : c.tables.get? k = some t) (there' : c.tables.get? k' = some u)
    (drawn : s ∈ t.sequenceIds) (drawn' : s ∈ u.sequenceIds) : k = k' := by
  by_contra other
  have apart : t ≠ u := by
    rintro rfl
    exact other ((numbered.id_eq there).symm.trans (numbered.id_eq there'))
  have disjoint := (List.nodup_flatMap.1 h).2
  have symmetric : Std.Symm (Function.onFun (List.Disjoint (α := SequenceId)) Table.sequenceIds) :=
    ⟨fun _ _ => List.disjoint_symm⟩
  exact disjoint.forall (OrderedMap.mem_values there) (OrderedMap.mem_values there') apart
    drawn drawn'

end SequencesApart

theorem Intact.checkParentJoin_eq_ok (h : c.Intact) (there : c.tables.get? k = some t)
    (named : t.parentJoin = some i) : c.checkParentJoin t i = .ok () := by
  obtain ⟨j, found, rfl⟩ := (h.hook_iff k i).1 ((hook_of_get? there).trans named)
  obtain ⟨p, above⟩ := h.parent found
  have grouped := h.shared found
  rw [groupOf_of_get? there, groupOf_of_get? above] at grouped
  exact Catalog.checkParentJoin_eq_ok.2 ⟨j, p, found, (h.id_eq there).symm, above, grouped.symm⟩

theorem checkColumns_of_positioned (positioned : t.Positioned)
    (supply : ∀ s ∈ t.sequenceIds, ∃ q, c.sequences.get? s = some q) :
    c.checkColumns t 0 t.columns = .ok () := by
  refine checkColumns_eq_ok.2 ⟨fun i column found => ?_, fun column inside s generated => ?_⟩
  · rw [Table.positioned_iff.1 positioned i column found, Nat.zero_add]
  · exact supply s (List.mem_filterMap.2 ⟨column, inside, generated⟩)

theorem limits_checkIndex {P : Fault → Prop} (missing : ∀ name, P (.noSuchColumn name))
    (index : Index) : Limits P (checkIndex t index) := by
  unfold checkIndex
  split
  · exact limits_error (missing _)
  · exact limits_ok _

/-- Nothing that validation finds in an intact catalog is a broken invariant. -/
theorem Intact.foresees_validate (h : c.Intact) (positioned : c.Positioned)
    (supplied : c.Supplied) : Foresees c.validate := by
  unfold validate
  refine Limits.bind (Limits.forM fun t listed => ?_) fun _ _ =>
    Limits.forM fun j listed => ?_
  · have there := h.toNumbered.get?_of_mem listed
    unfold checkTable
    rw [checkColumns_of_positioned (positioned there) (supplied there)]
    refine Limits.bind (limits_ok _) fun _ _ => ?_
    refine Limits.bind (Limits.forM fun index _ =>
      limits_checkIndex (fun _ => trivial) index) fun _ _ => ?_
    refine Limits.bind (Limits.forM fun i named => ?_) fun _ _ => ?_
    · rw [h.checkParentJoin_eq_ok there (by simpa using named)]
      exact limits_ok _
    · exact (h.toLinked.foresees_rootOf ⟨t, there⟩).discard
  · have there := h.toNumbered.get?_join_of_mem listed
    obtain ⟨t, below, named⟩ := h.toLinked.child there
    obtain ⟨p, above⟩ := h.parent there
    simp only [checkJoined, table_of_get? below, table_of_get? above, ensure, named, bind,
      Except.bind, beq_self_eq_true, if_true]
    exact Limits.forM fun pair _ => foresees_checkPair pair

/-- An intact catalog in which columns, indexes and joins are in order and no table is below
itself passes its validation. -/
theorem Intact.validate_eq_ok (h : c.Intact) (positioned : c.Positioned) (supplied : c.Supplied)
    (indexed : c.Indexed) (paired : c.Paired) (acyclic : c.Acyclic) : c.validate = .ok () := by
  refine Catalog.validate_eq_ok.2 ⟨fun t listed => ?_, fun j listed => ?_⟩
  · have there := h.toNumbered.get?_of_mem listed
    exact checkTable_eq_ok.2 ⟨checkColumns_of_positioned (positioned there) (supplied there),
      indexed there, fun i named => h.checkParentJoin_eq_ok there named,
      h.toLinked.exists_rootOf acyclic ⟨t, there⟩⟩
  · have there := h.toNumbered.get?_join_of_mem listed
    obtain ⟨t, below, named⟩ := h.toLinked.child there
    obtain ⟨p, above⟩ := h.parent there
    exact checkJoined_eq_ok.2 ⟨t, p, below, named, above, paired there above below⟩

/-- Where names are distinct none of them occurs twice. -/
theorem DistinctNames.nodup_names (h : c.DistinctNames) (numbered : c.Numbered) :
    (c.tables.values.map Table.name).Nodup := by
  have once : c.tables.values.Nodup := numbered.tables.nodup_numbers.of_map _
  refine once.map_on fun t inside u inside' same => ?_
  have there := numbered.get?_of_mem inside
  have there' := numbered.get?_of_mem inside'
  rw [h there there' same] at there
  exact Option.some.inj (there.symm.trans there')

theorem Intact.wellFormed (h : c.Intact) (names : c.DistinctNames) (positioned : c.Positioned)
    (supplied : c.Supplied) (indexed : c.Indexed) (paired : c.Paired) (acyclic : c.Acyclic) :
    c.WellFormed :=
  ⟨h.toNumbered, names.nodup_names h.toNumbered,
    h.validate_eq_ok positioned supplied indexed paired acyclic⟩

end GroupedTables.Catalog
