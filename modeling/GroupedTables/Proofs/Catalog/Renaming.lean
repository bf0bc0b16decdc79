import GroupedTables.Proofs.Catalog.Regrouping

/-!
# Renaming tables

Names play no part in the trees, the groups or the sequences, so it does not matter whether a
table is renamed before another one is removed or after that, and the name of a table that is
removed does not matter at all. What a renaming needs is that the new name is free.
-/

namespace GroupedTables.Catalog

open GroupedTables.Action

variable {c c' : Catalog} {id k x : TableId} {name : TableName} {s : SequenceId} {t t' : Table}
  {f : Nat → Table → Table}

/-- The catalog with a table under another name. -/
def renamed (c : Catalog) (id : TableId) (name : TableName) : Catalog :=
  c.editing id ({ · with name })

@[simp] theorem joins_renamed : (c.renamed id name).joins = c.joins := rfl

@[simp] theorem sequences_renamed : (c.renamed id name).sequences = c.sequences := rfl

@[simp] theorem nextId_renamed : (c.renamed id name).nextId = c.nextId := rfl

@[simp] theorem hook_renamed : (c.renamed id name).hook k = c.hook k :=
  hook_map tables_editing fun t _ => by split <;> rfl

theorem get?_renamed_self (there : c.tables.get? id = some t) :
    (c.renamed id name).tables.get? id = some { t with name } :=
  get?_editing_self there

theorem get?_renamed_of_ne (other : k ≠ id) :
    (c.renamed id name).tables.get? k = c.tables.get? k := by
  rw [renamed, get?_editing, if_neg other]

theorem Intact.renamed (h : c.Intact) : (c.renamed id name).Intact :=
  h.editing (fun _ => rfl) (fun _ => rfl) fun _ => rfl

/-- A free name can be given to a table, and then names are still distinct. -/
theorem DistinctNames.renamed (h : c.DistinctNames) (free : c.tableNamed? name = none) :
    (c.renamed id name).DistinctNames := by
  rw [tableNamed?_eq_none_iff] at free
  have old ⦃k : TableId⦄ ⦃t : Table⦄ (there : (c.renamed id name).tables.get? k = some t)
      (other : k ≠ id) : c.tables.get? k = some t := by rwa [get?_renamed_of_ne other] at there
  have new ⦃t : Table⦄ (there : (c.renamed id name).tables.get? id = some t) : t.name = name := by
    rw [Catalog.renamed, get?_editing, if_pos rfl, Option.map_eq_some_iff] at there
    obtain ⟨_, _, rfl⟩ := there
    rfl
  intro k k' t t' there there' same
  by_cases here : k = id <;> by_cases here' : k' = id
  · exact here.trans here'.symm
  · rw [here] at there
    exact absurd (same.symm.trans (new there)) (free (old there' here'))
  · rw [here'] at there'
    exact absurd (same.trans (new there')) (free (old there here))
  · exact h (old there here) (old there' here') same

/-- A table that is given a free name frees the one it had. -/
theorem DistinctNames.tableNamed?_renamed (h : c.DistinctNames) (there : c.tables.get? id = some t)
    (free : c.tableNamed? name = none) : (c.renamed id name).tableNamed? t.name = none := by
  rw [tableNamed?_eq_none_iff] at free ⊢
  intro k u there' same
  by_cases here : k = id
  · rw [here, get?_renamed_self there] at there'
    cases there'
    exact free there same.symm
  · rw [get?_renamed_of_ne here] at there'
    exact here (h there' there same)

theorem detached_renamed : (c.renamed id name).detached x = (c.detached x).renamed id name := by
  cases hung : c.hook x with
  | none => rw [detached_of_root hung, detached_of_root (hook_renamed.trans hung)]
  | some i =>
    have members : ((c.renamed id name).unhooked x i).subtree x = (c.unhooked x i).subtree x :=
      subtree_congr rfl
    rw [detached_of_hook hung, detached_of_hook (hook_renamed.trans hung), members]
    simp only [inGroup, unhooked, renamed, editing, OrderedMap.modify, OrderedMap.map_map]
    congr 1
    apply OrderedMap.map_congr
    intro k t _
    split <;> split <;> split <;> rfl

theorem isolated_renamed : (c.renamed id name).isolated x = (c.isolated x).renamed id name := by
  have children : (c.renamed id name).children x = c.children x := rfl
  have loop (tables : List TableId) (c : Catalog) :
      tables.foldl detached (c.renamed id name) = (tables.foldl detached c).renamed id name := by
    induction tables generalizing c with
    | nil => rfl
    | cons y rest ih => rw [List.foldl_cons, detached_renamed, ih, List.foldl_cons]
  rw [isolated, children, loop, detached_renamed, isolated]

/-- A change of tables that keeps what they draw from keeps which sequences are in use. -/
theorem usesSequence_map (tables : c'.tables = c.tables.map f)
    (same : ∀ k t, (f k t).sequenceIds = t.sequenceIds) :
    c'.usesSequence s = c.usesSequence s := by
  rw [Bool.eq_iff_iff, usesSequence_iff, usesSequence_iff]
  simp only [tables, OrderedMap.get?_map, Option.map_eq_some_iff]
  constructor
  · rintro ⟨k, _, ⟨t, there, rfl⟩, drawn⟩
    exact ⟨k, t, there, same k t ▸ drawn⟩
  · rintro ⟨k, t, there, drawn⟩
    exact ⟨k, _, ⟨t, there, rfl⟩, (same k t).symm ▸ drawn⟩

theorem orphanedSequences_renamed :
    (c.renamed id name).orphanedSequences t = c.orphanedSequences t := by
  have uses (s : SequenceId) : (c.renamed id name).usesSequence s = c.usesSequence s :=
    usesSequence_map tables_editing fun k t => by split <;> rfl
  apply List.filter_congr
  intro s _
  rw [uses]

theorem erased_renamed : (c.renamed id name).erased x = (c.erased x).renamed id name := by
  rw [erased, isolated_renamed, erased]
  simp only [renamed, editing, OrderedMap.modify, OrderedMap.erase_map]

/-- One table can be renamed before another one is removed or after that. -/
theorem removed_renamed : (c.renamed id name).removed x t = (c.removed x t).renamed id name := by
  rw [removed, erased_renamed, orphanedSequences_renamed, removed]
  rfl

theorem renamed_of_absent (absent : c.tables.get? id = none) : c.renamed id name = c := by
  have tables : c.tables.modify id (fun t => { t with name }) = c.tables := by
    refine OrderedMap.map_eq_self fun k t there => if_neg ?_
    rintro rfl
    rw [absent] at there
    cases there
  rw [renamed, editing, tables]

theorem get?_removed_self : (c.removed x t).tables.get? x = none :=
  (OrderedMap.get?_erase ..).trans (if_pos rfl)

/-- The name of a table that is removed does not matter. -/
theorem removed_renamed_self (same : t'.columns = t.columns) :
    (c.renamed x name).removed x t' = c.removed x t := by
  rw [removed_renamed, renamed_of_absent get?_removed_self, removed, orphanedSequences_congr same,
    removed]

/-- A free name is never refused. -/
theorem renameTable_eq (there : c.tables.get? id = some t) (free : c.tableNamed? name = none) :
    renameTable id name c = .ok () (c.renamed id name) := by
  apply eq_ok_of_wp
  unfold renameTable
  simp only [wp_bind, wp_get, free]
  exact (wp_of_ok (editTable_eq there)).2 ⟨trivial, rfl⟩

end GroupedTables.Catalog
