import GroupedTables.Alter.Planner
import GroupedTables.Proofs.Alter.ColumnEdits
import GroupedTables.Proofs.Catalog.Following

/-!
# Drafts of whole statements

A draft begins with the table emptied in the part of the catalog that is its tree. Putting
the columns back, carrying the edits of a statement out and giving the table its place keep
what every draft keeps, so a plan that comes about holds a draft that passed its validation,
and a plan that does not come about has a fault that is excused.
-/

namespace GroupedTables

open GroupedTables.Action Catalog

namespace Drafts

variable {live c : Catalog} {current t : Table} {p : Table → Bool} {changes : List Change}
  {i : JoinId} {j : Join} {x : TableId} {names : List String}

/-- The names of the columns that stay, as they are in the end. -/
def keptNames (changes : List Change) (columns : List Column) : List String :=
  columns.filterMap fun column => Change.finalName? changes column.name

/-- The part of a catalog that a draft starts from, with the table emptied. -/
def emptied (live : Catalog) (p : Table → Bool) (current : Table) : Catalog :=
  ((live.select p).editing current.id ({ · with columns := [] })).editing current.id
    ({ · with indexes := [] })

/-- A draft whose columns are put back one after the other, with those still to come. -/
structure Resetting (live : Catalog) (current : Table) (changes : List Change)
    (rest : List Column) (c : Catalog) : Prop where
  drafts : ∃ names, Drafts live current names c ∧
    names ++ keptNames changes rest = keptNames changes current.columns
  within : ∀ column ∈ rest, column ∈ current.columns
  stocked : ∀ s ∈ current.sequenceIds, ∃ q, c.sequences.get? s = some q
  distinct : live.SequencesApart → ∀ t, c.tables.get? current.id = some t →
    (t.sequenceIds ++ rest.filterMap (·.identity)).Nodup

theorem resetting_emptied (wf : live.WellFormed)
    (found : live.tables.get? current.id = some current) (passes : p current = true) :
    Resetting live current changes current.columns (emptied live p current) := by
  have intact := wf.intact.select (p := p)
  obtain ⟨t, there, body⟩ := exists_select_of_whole wf.numbered found passes
  have empty : (emptied live p current).tables.get? current.id =
      some { t with columns := [], indexes := [] } :=
    get?_editing_self (get?_editing_self there)
  have supplied := wf.supplied.select (p := p) wf.numbered
  have name : t.name = current.name := by rw [← Table.body_name, body, Table.body_name]
  refine ⟨⟨[], ⟨?_, ?_, ⟨_, empty, name, rfl, rfl, .nil, nofun⟩, ?_, ?_,
    sourced_select wf.numbered, fun _ => ⟨?_, ?_⟩⟩, rfl⟩, fun _ => id, ?_, ?_⟩
  · have bare : ((live.select p).editing current.id ({ · with columns := [] })).Intact :=
      intact.editing (fun _ => rfl) (fun _ => rfl) fun _ => rfl
    exact bare.editing (fun _ => rfl) (fun _ => rfl) fun _ => rfl
  · exact Nat.le_of_eq (nextId_select wf.numbered).symm
  · intro k u there' other
    rw [emptied, get?_editing, if_neg other, get?_editing, if_neg other] at there'
    exact exists_whole_of_select wf.numbered there'
  · intro i j there' above
    change (live.select p).joins.get? i = some j at there'
    rw [joins_select wf.numbered] at there'
    exact ⟨j, (get?_selectedJoins.1 there').1, above, rfl⟩
  · intro k u there' s drawn
    by_cases same : k = current.id
    · rw [same, empty] at there'
      cases there'
      cases drawn
    · rw [emptied, get?_editing, if_neg same, get?_editing, if_neg same] at there'
      exact supplied there' s drawn
  · intro u there'
    rw [empty] at there'
    cases there'
    exact .nil
  · intro s drawn
    apply supplied there s
    rw [← Table.body_sequenceIds, body]
    exact drawn
  · intro apart u there'
    rw [empty] at there'
    cases there'
    exact apart.nodup found

/-- Putting a column back under a name that is free. -/
theorem Resetting.step {rest : List Column} {column : Column} (wf : live.WellFormed)
    (found : live.tables.get? current.id = some current)
    (h : Resetting live current changes (column :: rest) c) :
    WP (Draft.keepColumn current.id changes column) (fun _ => Resetting live current changes rest)
      (fun f _ => Excused live f) c := by
  have within : ∀ column ∈ rest, column ∈ current.columns :=
    fun a inside => h.within a (.tail _ inside)
  obtain ⟨names, drafts, ahead⟩ := h.drafts
  obtain ⟨t, there, drafted⟩ := drafts.itself
  unfold Draft.keepColumn
  split
  case h_2 gone =>
    simp only [keptNames, List.filterMap_cons, gone] at ahead
    refine ⟨⟨names, drafts, ahead⟩, within, h.stocked, fun apart u there' => ?_⟩
    refine (h.distinct apart u there').sublist ?_
    exact (List.Sublist.refl _).append ((List.sublist_cons_self _ _).filterMap _)
  case h_1 name kept =>
    simp only [keptNames, List.filterMap_cons, kept] at ahead
    rw [List.append_cons] at ahead
    apply wp_addColumn there (fun _ _ => Excused.of_foreseen)
    intro fresh
    have drawn : (t.withColumn { column with name }).sequenceIds =
        t.sequenceIds ++ column.identity.toList := Table.sequenceIds_withColumn
    have own ⦃s : SequenceId⦄ (inside : s ∈ column.identity.toList) : s ∈ current.sequenceIds :=
      List.mem_filterMap.2 ⟨column, h.within column (.head _), Option.mem_toList.1 inside⟩
    have apart' (apart : live.SequencesApart) :
        ((t.withColumn { column with name }).sequenceIds ++ rest.filterMap (·.identity)).Nodup := by
      have nodup := h.distinct apart t there
      rw [drawn, List.append_assoc]
      refine nodup.sublist ((List.Sublist.refl _).append ?_)
      cases generated : column.identity <;> simp [generated]
    refine ⟨⟨names ++ [name], ?_, ahead⟩, within, h.stocked, fun apart u there' => ?_⟩
    · refine drafts.revise (f := (·.withColumn { column with name })) wf found there
        (fun _ => ⟨rfl, rfl, rfl⟩) ⟨drafted.name, drafted.positioned.withColumn, ?_, ?_, ?_⟩
        (Nat.le_refl _) drafts.intact.sequences (fun _ _ => .inr) fun apart =>
          ⟨(List.nodup_append.1 (apart' apart)).1, ?_, fun s q _ kept => ⟨q, kept⟩⟩
      · rw [Table.columnNames_withColumn, drafted.listed]
      · rw [Table.columnNames_withColumn, ← List.concat_eq_append]
        exact (List.nodup_concat _ _).2 ⟨fresh, drafted.distinct⟩
      · intro s inside
        obtain inside | inside := List.mem_append.1 (drawn ▸ inside)
        · exact drafted.drawn s inside
        · exact .inl (own inside)
      · intro s inside
        obtain inside | inside := List.mem_append.1 (drawn ▸ inside)
        · exact (drafts.supply apart).1 there s inside
        · exact h.stocked s (own inside)
    · cases (get?_editing_self there).symm.trans there'
      exact apart' apart

/-- A table of the draft comes off its parent. -/
theorem detach (h : Drafts live current names c) : Drafts live current names (c.detached x) := by
  refine h.move h.intact.detached bodies_detached sequences_detached
    (Nat.le_of_eq nextId_detached.symm)
    fun i j there above => ?_
  rw [joins_detached h.intact.toLinked, OrderedMap.get?_filter, Option.filter_eq_some_iff] at there
  exact ⟨j, there.1, above, rfl⟩

/-- The columns of a join are other ones. -/
theorem pairJoin (h : Drafts live current names c) (columns : List JoinColumn) :
    Drafts live current names (c.repaired i columns) := by
  refine h.move h.intact.repaired rfl rfl (Nat.le_refl _) fun i' j' there above => ?_
  obtain ⟨j, there', above', below⟩ := exists_join_repaired there
  exact ⟨j, there', above'.trans above, below⟩

theorem followedAt (h : Drafts live current names c) {rename : String → Option String} :
    Drafts live current names (c.followedAt x rename i) := by
  obtain same | ⟨columns, same | ⟨k, same⟩⟩ := followedAt_eq c x rename i
  · rwa [same]
  · rw [same]
    exact h.pairJoin columns
  · rw [same]
    exact (h.pairJoin columns).detach

theorem keeps_remapJoinColumns (h : Drafts live current names c) (table : TableId)
    (rename : String → Option String) :
    Keeps live current names (remapJoinColumns table rename) c := by
  unfold Keeps remapJoinColumns
  simp only [wp_bind, wp_get]
  exact wp_mapM (fun _ => Drafts live current names) h (fun _ _ kept => kept) fun i _ c kept =>
    wp_remapJoin kept.intact.toLinked kept.followedAt

/-- A draft begins with the columns that stay, in their order. -/
theorem keeps_resetTable (wf : live.WellFormed)
    (found : live.tables.get? current.id = some current) (passes : p current = true) :
    Keeps live current (keptNames changes current.columns) (Draft.resetTable current changes)
      (live.select p) := by
  obtain ⟨t, there, _⟩ := exists_select_of_whole wf.numbered found passes
  unfold Keeps Draft.resetTable
  simp only [wp_bind, wp_discard]
  rw [wp_dropColumns there, wp_bind, wp_discard, wp_removeIndexes (get?_editing_self there),
    wp_bind]
  refine wp_forM (Resetting live current changes) (resetting_emptied wf found passes)
    (fun c reset => ?_) fun column rest c reset => reset.step wf found
  obtain ⟨names, drafts, ahead⟩ := reset.drafts
  rw [keptNames, List.filterMap_nil, List.append_nil] at ahead
  exact wp_discard.2 (keeps_remapJoinColumns (ahead ▸ drafts) current.id _)

section

variable (wf : live.WellFormed) (found : live.tables.get? current.id = some current)

include wf found

theorem keeps_addIndex (h : Drafts live current names c) (index : Index) :
    Keeps live current names (addIndex current.id index) c := by
  obtain ⟨t, there, drafted⟩ := h.itself
  exact wp_addIndex there (fun _ _ => Excused.of_foreseen)
    (h.revise_table (f := fun t => { t with indexes := t.indexes ++ [index] }) wf found there
      (fun _ => ⟨rfl, rfl, rfl⟩) rfl drafted.positioned drafted.listed drafted.distinct rfl)

theorem keeps_keepIndex (h : Drafts live current names c) (columnChanges indexChanges : List Change)
    (index : Index) :
    Keeps live current names (Draft.keepIndex current.id columnChanges indexChanges index) c := by
  unfold Keeps Draft.keepIndex
  simp only [wp_ite, wp_bind]
  refine ⟨fun _ => h, fun _ => ⟨fun _ => h, fun _ => ?_⟩⟩
  apply (h.keeps_addIndex wf found _).mono_post
  intro _ c kept
  rw [wp_ite]
  exact ⟨fun _ => kept, fun _ => kept⟩

theorem keeps_addKey (h : Drafts live current names c) (taken : IndexNames) (changes : List Change)
    (key : KeyEdit) : Keeps live current names (Draft.addKey current.id taken changes key) c := by
  unfold Keeps Draft.addKey
  split
  simp only [wp_bind]
  exact (h.keeps_addIndex wf found _).mono_post fun _ c kept => kept

omit wf found in
theorem keeps_leaveParent (h : Drafts live current names c) :
    Keeps live current names (Draft.leaveParent current) c := by
  obtain ⟨t, there, _⟩ := h.itself
  unfold Keeps Draft.leaveParent
  rw [wp_bind, wp_of_ok (clearParentJoin_eq h.intact.toLinked there), wp_ite]
  exact ⟨fun _ => Excused.of_foreseen trivial, fun _ => h.detach⟩

omit found in
/-- Taking a table over from the live catalog keeps a draft. -/
theorem copy (h : Drafts live current names c) {k : TableId} (there : live.tables.get? k = some t)
    (free : c.tables.get? t.id = none) : Drafts live current names (c.copied live t) := by
  obtain ⟨u, itself, drafted⟩ := h.itself
  have id := wf.numbered.id_eq there
  have itself' : (c.copied live t).tables.get? current.id = some u :=
    get?_copied_of_get? free itself
  refine
    { intact := h.intact.copied wf.numbered there free
      counter := Nat.le_max_right ..
      itself := ⟨u, itself', drafted⟩
      others := fun k u there' other => ?_
      children := h.children
      sourced := h.sourced.copied wf.numbered
      supply := fun apart =>
        ⟨(h.supply apart).1.copied wf.supplied wf.numbered there, fun u' there' => ?_⟩ }
  · rw [get?_copied] at there'
    split at there'
    case isTrue same =>
      cases there'
      exact ⟨t, by rw [same, id]; exact there, rfl⟩
    case isFalse => exact h.others there' other
  · rw [itself'] at there'
    cases there'
    exact (h.supply apart).2 u itself

omit found in
/-- The parent of a foreign key is in the draft once it is brought there. -/
theorem keeps_bringParent (h : Drafts live current names c) (name : TableName) :
    WP (Draft.bringParent live current name)
      (fun k c' => Drafts live current names c' ∧ (∃ p, c'.tables.get? k = some p) ∧
        c'.hook current.id = c.hook current.id)
      (fun f _ => Excused live f) c := by
  unfold Draft.bringParent
  simp only [wp_bind, wp_get]
  cases named : c.tableNamed? name with
  | some parent =>
    exact ⟨h, ⟨parent, (h.intact.toNumbered.get?_of_tableNamed? named).1⟩, rfl⟩
  | none =>
    cases known : live.tableNamed? name with
    | none => exact Excused.of_foreseen trivial
    | some parent =>
      have there := (wf.numbered.get?_of_tableNamed? known).1
      simp only [wp_bind]
      apply wp_copyTable wf.numbered there (fun _ _ => Excused.of_foreseen)
      intro free
      refine ⟨h.copy wf there free, ⟨_, get?_copied.trans (if_pos rfl)⟩, hook_copied free⟩

omit found in
/-- The table gives its group up before it is joined, so that the two steps go together. -/
theorem keeps_joinParent (h : Drafts live current names c) (schema : String) (key : ForeignKey) :
    Keeps live current names (Draft.joinParent live current schema key) c := by
  obtain ⟨t, there, _⟩ := h.itself
  unfold Keeps Draft.joinParent
  simp only [wp_ite, wp_bind, wp_get, wp_lift]
  rw [h.intact.toLinked.parentJoin_eq ⟨t, there⟩]
  refine ⟨fun _ => Excused.of_foreseen trivial, fun _ => ⟨fun above passed => ?_,
    fun _ failed => by cases failed⟩⟩
  refine ⟨fun _ => Excused.of_foreseen trivial, fun root => ?_⟩
  have off : c.hook current.id = none := by
    cases passed
    exact h.intact.toLinked.bind_hook_eq_none_iff.1 (by simpa using root)
  apply (h.keeps_bringParent wf _).mono_post
  rintro k c' ⟨h', ⟨p, above⟩, same⟩
  obtain ⟨u, itself, _⟩ := h'.itself
  simp only [wp_bind, wp_get, wp_lift_of_ok (table_of_get? above), wp_ite,
    wp_of_ok (editTable_eq itself), wp_discard]
  refine ⟨fun _ => Excused.of_foreseen trivial, fun _ => ?_⟩
  have numbered : (c'.editing current.id ({ · with group := none })).Numbered :=
    h'.intact.toNumbered.editing fun _ => rfl
  have linked : (c'.editing current.id ({ · with group := none })).Linked :=
    h'.intact.toLinked.editing fun _ => rfl
  have above' : ∃ p, (c'.editing current.id ({ · with group := none })).tables.get? k = some p :=
    exists_editing_iff.2 ⟨p, above⟩
  obtain ⟨p'', above'⟩ := above'
  refine wp_addJoin numbered linked above' (get?_editing_self itself)
    (fun _ foreseen _ => .of_foreseen foreseen) fun passed acyclic => ?_
  have root : (c'.editing current.id ({ · with group := none })).hook current.id = none :=
    (hook_of_get? (get?_editing_self itself)).trans (checkJoin_eq_ok.1 passed).1
  have elsewhere ⦃x : TableId⦄ (other : x ≠ current.id) :
      (c'.editing current.id ({ · with group := none })).groupOf x = c'.groupOf x :=
    groupOf_map tables_editing fun _ _ => by rw [if_neg other]
  refine h'.move (intact_joined numbered linked (get?_editing_self itself) above' root acyclic ?_)
    (bodies_joined.trans (bodies_editing_of_same fun _ => rfl)) rfl (Nat.le_succ _) ?_
  · intro i j there far
    have below := linked.no_join_of_hook root there
    rw [elsewhere below, elsewhere fun same => far (same ▸ self_mem_subtree)]
    exact h'.intact.shared there
  · intro i j there below
    rw [get?_joins_joined] at there
    split at there
    · cases there
      exact absurd (below ▸ self_mem_subtree) acyclic
    · exact ⟨j, there, below, rfl⟩

omit found in
theorem keeps_applyParentEdit (h : Drafts live current names c) (schema : String) (e : ParentEdit) :
    Keeps live current names (Draft.applyParentEdit live current schema e) c := by
  cases e with
  | leave => exact h.keeps_leaveParent
  | join key => exact h.keeps_joinParent wf schema key

end

end Drafts

end GroupedTables
