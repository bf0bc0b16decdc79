import GroupedTables.Proofs.Alter.Realisation

/-!
# Two ways to commit

In place, the table is taken out of its tree and given its new definition under the id it
has. In a swap, the definition is there under a new id, the old table is gone and the new one
has its name. Both ways come to a point where the table stands in its place, joined to
nothing and still drawing from the sequences of the draft, and what is said of either from
there on is said of that point.
-/

namespace GroupedTables

open GroupedTables.Action Catalog Memory
open scoped Unbounded

variable {live staged c c' : Catalog} {current d t : Table} {target : Staged} {x k : TableId}

/-- No sequence is left behind, if every live one is still drawn from elsewhere or is one that the
table is to draw from. -/
theorem Seated.spent (h : Seated live staged current d x [] c)
    (old : ∀ ⦃s q⦄, c.sequences.get? s = some q → s ≤ live.nextId →
      s ∈ d.sequenceIds ∨ c.usesSequence s = true) : c.Spent := by
  intro s q there
  obtain ⟨t, itself, _⟩ := h.itself
  by_cases new : live.nextId < s
  · obtain ⟨b, inside, _, drawn⟩ := h.tended.drawn itself there new
    exact usesSequence_iff.2 ⟨x, t, itself, List.mem_filterMap.2 ⟨b, inside, drawn⟩⟩
  · obtain planned | used := old there (Nat.not_lt.1 new)
    · exact usesSequence_iff.2
        ⟨x, t, itself, h.tended.mem_sequenceIds itself planned (Nat.not_lt.1 new)⟩
    · exact used

/-- A live sequence that only the table drew from is looked at, so none is left behind. -/
theorem Sweeping.spent {before : Catalog}
    (h : Sweeping live staged current d current.id before current.sequenceIds [] c)
    (found : live.tables.get? current.id = some current)
    (old : ∀ s q, before.sequences.get? s = some q → s ≤ live.nextId →
      live.sequences.get? s = some q) (spent : live.Spent) : c.Spent := by
  refine h.seated.spent fun s q there known => .inr ?_
  obtain ⟨k, t, listed, drawn⟩ := usesSequence_iff.1 (spent (old s q (h.fewer there) known))
  by_cases own : k = current.id
  · rw [own, found] at listed
    cases listed
    exact h.swept s drawn List.not_mem_nil q there
  · refine usesSequence_of_bodies ?_ listed drawn
    rw [h.seated.others k own, if_neg own]

/-- The table in its place with its new definition, before it is given sequences and joins. -/
structure Placed (live staged : Catalog) (current d : Table) (x : TableId) (c : Catalog) :
    Prop where
  seated : Seated live staged current d x ((identities d).map (·.1)) c
  itself : ∃ t, c.tables.get? x = some t ∧ t.columns = d.columns
  /-- No join touches it. -/
  loose : ∀ ⦃i j⦄, c.joins.get? i = some j → j.parent ≠ x ∧ j.child ≠ x
  /-- It is the old table, or one that was not there. -/
  new : x = current.id ∨ live.tables.get? x = none

namespace Placed

/-- As long as the joins stay, the table is joined to nothing. -/
theorem unjoined (h : Placed live staged current d x c) (linked : c'.Linked)
    (joins : c'.joins = c.joins) : c'.hook x = none ∧ c'.childLinks x = [] := by
  refine ⟨Option.eq_none_iff_forall_ne_some.2 fun i hung => ?_, ?_⟩
  · obtain ⟨j, there, below⟩ := (linked.hook_iff x i).1 hung
    exact (h.loose (joins ▸ there)).2 below
  · rw [childLinks, List.map_eq_nil_iff, List.eq_nil_iff_forall_not_mem]
    intro j listed
    obtain ⟨listed, above⟩ := mem_childJoins.1 listed
    obtain ⟨i, there⟩ := OrderedMap.mem_values_iff.1 listed
    exact (h.loose (joins ▸ there)).1 above

/-- The staged children have left the table that was there before, and hang on nothing. -/
theorem free (h : Placed live target.catalog current d x c) (fits : target.Fits live current)
    (wf : live.WellFormed) (linked : c'.Linked) (joins : c'.joins = c.joins) :
    ∀ j ∈ target.catalog.childJoins current.id, j.child ≠ x ∧ c'.hook j.child = none := by
  intro j listed
  refine ⟨(Seated.child_of_staged wf h.new fits listed).2.1,
    Option.eq_none_iff_forall_ne_some.2 fun i hung => ?_⟩
  obtain ⟨listed, above⟩ := mem_childJoins.1 listed
  obtain ⟨l, there, parent, child⟩ := fits.drafts.children
    (fits.drafts.intact.toNumbered.get?_join_of_mem listed) above
  obtain ⟨j', found, below⟩ := (linked.hook_iff _ i).1 hung
  rw [joins] at found
  obtain ⟨far, far'⟩ := h.loose found
  obtain ⟨found', other, _⟩ := (h.seated.apart i j' far far').1 found
  rw [(wf.intact.toLinked.join_unique found' there (below.trans child.symm)).2] at other
  exact other parent

/-- Once the table is given its sequences, the draft is realised just if its joins fit. -/
theorem wp_join_settle (h : Placed live target.catalog current d x c)
    (fits : target.Fits live current) (planned : target.catalog.tables.get? current.id = some d)
    (wf : live.WellFormed) (found : live.tables.get? current.id = some current)
    (seated : Seated live target.catalog current d x [] c') (joins : c'.joins = c.joins)
    (spent : live.Spent → c'.Spent) :
    WP (attachJoins x target >>= fun _ => settle)
      (fun _ c' => Committed live target.catalog current d x c' ∧
        Attachable live target.catalog current d)
      (fun f _ => f.Foreseen ∧ ¬ Attachable live target.catalog current d) c' := by
  obtain ⟨root, bare⟩ := h.unjoined seated.intact.toLinked joins
  have free := h.free fits wf seated.intact.toLinked joins
  rw [wp_bind]
  apply (seated.wp_attachJoins wf h.new fits planned root bare free).mono_post
  rintro _ c'' ⟨⟨seated, parent, children, moved⟩, fit⟩
  exact (seated.wp_settle fits planned wf found parent children fun nothing =>
    (spent nothing).move moved).mono (fun _ _ committed => ⟨committed, fit⟩) fun _ _ => False.elim

/-- From where the table is placed, taking over realises the draft just if its joins fit. -/
theorem wp_takeOver (h : Placed live target.catalog current d x c)
    (fits : target.Fits live current) (planned : target.catalog.tables.get? current.id = some d)
    (wf : live.WellFormed) (found : live.tables.get? current.id = some current)
    (spent : live.Spent → c.Spent) :
    WP (takeOver x target)
      (fun _ c' => Committed live target.catalog current d x c' ∧
        Attachable live target.catalog current d)
      (fun f _ => f.Foreseen ∧ ¬ Attachable live target.catalog current d) c := by
  obtain ⟨t, there, same⟩ := h.itself
  unfold takeOver
  rw [wp_bind]
  refine (h.seated.wp_adoptSequences fits planned there same).mono ?_ fun _ _ => False.elim
  rintro _ c' ⟨seated, joins, replenished⟩
  have spent' (nothing : live.Spent) : c'.Spent := by
    refine seated.spent fun s q supplied old => ?_
    obtain ⟨k, u, listed, drawn⟩ :=
      usesSequence_iff.1 (spent nothing (replenished.old supplied old))
    by_cases itself : k = x
    · rw [itself, there] at listed
      cases listed
      rw [Table.sequenceIds, same] at drawn
      exact .inl drawn
    · refine .inr (usesSequence_of_bodies ?_ listed drawn)
      rw [seated.others k itself, h.seated.others k itself]
  have free := h.free fits wf seated.intact.toLinked joins
  rw [wp_bind, fits.table]
  -- the children are off their old parent already, so this loop changes nothing
  refine wp_forM (fun rest c'' => (∀ j ∈ rest, j ∈ target.catalog.childJoins current.id) ∧ c'' = c')
    ⟨fun _ => id, rfl⟩ ?_ ?_
  · rintro _ ⟨_, rfl⟩
    exact h.wp_join_settle fits planned wf found seated joins spent'
  · rintro j rest c'' ⟨within, rfl⟩
    unfold onLiveChild
    simp only [wp_bind, wp_get, wp_ite]
    refine ⟨fun present => ?_, fun _ => ⟨fun j inside => within j (.tail _ inside), rfl⟩⟩
    obtain ⟨u, there⟩ := OrderedMap.contains_iff_exists.1 present
    rw [wp_discard, wp_of_ok (clearParentJoin_eq seated.intact.toLinked there),
      detached_of_root (free j (within j (.head _))).2]
    exact ⟨fun j inside => within j (.tail _ inside), rfl⟩

end Placed

/-- The live catalog with the table taken out of its tree and given a definition. -/
def Catalog.redefined (live : Catalog) (x : TableId) (d : Table) : Catalog :=
  (live.isolated x).editing x
    ({ · with name := d.name, columns := d.columns, indexes := d.indexes })

@[simp] theorem Catalog.sequences_redefined : (live.redefined x d).sequences = live.sequences := by
  rw [redefined, sequences_editing, sequences_isolated]

theorem Catalog.WellFormed.placed_redefined (wf : live.WellFormed)
    (found : live.tables.get? current.id = some current) {names : List String}
    (drafted : Drafted live current names d) :
    Placed live staged current d current.id (live.redefined current.id d) := by
  have intact : (live.redefined current.id d).Intact :=
    wf.intact.isolated.editing (fun _ => rfl) (fun _ => rfl) fun _ => rfl
  obtain ⟨t, there, _⟩ := exists_of_bodies (bodies_isolated (x := current.id)) found
  have itself : (live.redefined current.id d).tables.get? current.id =
      some { t with name := d.name, columns := d.columns, indexes := d.indexes } :=
    get?_editing_self there
  have elsewhere ⦃k : TableId⦄ (other : k ≠ current.id) :
      (live.redefined current.id d).tables.get? k = (live.isolated current.id).tables.get? k := by
    rw [redefined, get?_editing, if_neg other]
  have joined {i : JoinId} {j : Join} : (live.redefined current.id d).joins.get? i = some j ↔
      live.joins.get? i = some j ∧ j.parent ≠ current.id ∧ j.child ≠ current.id := by
    rw [redefined, joins_editing, joins_isolated wf.intact.toLinked,
      OrderedMap.get?_filter, Option.filter_eq_some_iff]
    simp
  have tended : Tended live d current.id ((identities d).map (·.1)) (live.redefined current.id d) :=
    .of_columns (fun u there' => by cases itself.symm.trans there'; rfl)
      (fun s q supplied => (wf.numbered.sequences (sequences_redefined ▸ supplied)).2)
      fun s _ => by rw [sequences_redefined]
  refine ⟨⟨intact, wf.acyclic.mono fun i j there' => (joined.1 there').1,
    Nat.le_of_eq nextId_isolated.symm, ⟨_, itself, drafted.name, rfl, adopting_identities⟩,
    fun k other => ?_, fun i j _ _ => joined, fun k u other there' s drawn => ?_, tended⟩,
    ⟨_, itself, rfl⟩, fun i j there' => (joined.1 there').2, .inl rfl⟩
  · rw [if_neg other, get?_bodies, elsewhere other, ← get?_bodies, bodies_isolated]
  · rw [elsewhere other] at there'
    rw [sequences_redefined, ← sequences_isolated (c := live) (x := current.id)]
    exact (wf.supplied.congr bodies_isolated sequences_isolated) there' s drawn

/-- The table is taken out of its tree and given its definition, and the rest is done from there. -/
theorem wp_replaceDefinition_of {post : Unit → Catalog → Prop} {fails : Fault → Catalog → Prop}
    (wf : live.WellFormed) (found : live.tables.get? current.id = some current)
    (definition : target.definition = .ok d)
    (rest : WP (do
        adoptSequences current.id target
        current.sequenceIds.forM sweepSequence
        attachJoins current.id target
        settle) post fails (live.redefined current.id d)) :
    WP (replaceDefinition current.id target) post fails live := by
  have children : ∀ k ∈ live.children current.id, ∃ t, live.tables.get? k = some t :=
    fun k => wf.intact.toLinked.exists_child
  have orphans := wf.intact.foldl_detached (live.children current.id)
  obtain ⟨t', there', _⟩ := exists_of_bodies
    (foldl_keeps bodies (fun _ _ => bodies_detached) (live.children current.id)) found
  obtain ⟨t, there, _⟩ := exists_of_bodies (bodies_isolated (x := current.id)) found
  unfold replaceDefinition
  rw [wp_bind, wp_lift_of_ok definition, wp_bind, wp_get, wp_bind,
    wp_lift_of_ok (table_of_get? found)]
  dsimp only
  rw [sequenceIds_identities, wp_bind, wp_get, wp_bind]
  refine (wp_clearParentJoins wf.intact.toLinked children).mono (fun _ c' reached => ?_)
    fun _ _ => False.elim
  subst reached
  rw [wp_bind, wp_discard, wp_of_ok (clearParentJoin_eq orphans.toLinked there'), wp_bind]
  exact (wp_of_ok (editTable_eq there)).2 rest

/-- The definition is replaced under the id of the table only if the joins of the draft fit, and
then nothing is in the way but a sequence that is drawn from twice. -/
theorem wp_replaceDefinition (fits : target.Fits live current)
    (planned : target.catalog.tables.get? current.id = some d) (wf : live.WellFormed)
    (found : live.tables.get? current.id = some current) :
    WP (replaceDefinition current.id target)
      (fun _ c' => Committed live target.catalog current d current.id c' ∧
        Attachable live target.catalog current d)
      (fun f _ => live.SequencesApart →
        f.Foreseen ∧ ¬ Attachable live target.catalog current d) live := by
  have placed : Placed live target.catalog current d current.id (live.redefined current.id d) :=
    wf.placed_redefined found (fits.drafts.drafted planned)
  refine wp_replaceDefinition_of wf found (fits.definition_eq planned) ?_
  rw [wp_bind]
  obtain ⟨u, itself, same⟩ := placed.itself
  refine (placed.seated.wp_adoptSequences fits planned itself same).mono ?_ fun _ _ => False.elim
  intro _ c₁ ⟨seated, joins, replenished⟩
  rw [wp_bind]
  have stocked : ∀ s ∈ current.sequenceIds, ∃ q, c₁.sequences.get? s = some q := by
    intro s drawn
    obtain ⟨q, supplied⟩ := wf.supplied found s drawn
    refine ⟨q, replenished.kept ?_⟩
    rwa [sequences_redefined]
  refine (seated.wp_sweep fun broken _ _ apart =>
    absurd ⟨apart.nodup found, stocked⟩ broken).mono_post ?_
  intro _ c₂ sweeping
  have spent : live.Spent → c₂.Spent := sweeping.spent found fun s q there old => by
    have before := replenished.old there old
    rwa [sequences_redefined] at before
  exact (placed.wp_join_settle fits planned wf found sweeping.seated
    (sweeping.joins.trans joins) spent).mono (fun _ _ => id) fun f _ unfit _ => unfit

end GroupedTables
