import GroupedTables.Proofs.Alter.Attaching

/-!
# What is committed

Once the table has its joins, the catalog is grouped afresh and checked. There is nothing left
to find: what there is besides the table was in order before, and the table is in order in the
draft. What comes out realises the draft: the same columns up to the ids of sequences, the same
indexes, the same joins up to their ids, and nothing else is touched.
-/

namespace GroupedTables

open GroupedTables.Action Catalog Memory
open scoped Unbounded

variable {live staged c c' : Catalog} {current d t : Table} {target : Staged} {x k : TableId}
  {columns : List JoinColumn}

/-- A committed catalog realises a staged table, under one id or another. -/
structure Realises (live staged : Catalog) (current d : Table) (x : TableId) (c : Catalog) :
    Prop where
  /-- The table is found under its name, with the staged columns and indexes. -/
  itself : ∃ t, c.tableNamed? current.name = some t ∧ t.id = x ∧ t.indexes = d.indexes ∧
    List.Forall₂ (Adopts staged c) d.columns t.columns
  /-- The counter did not go back, and the table is within it. -/
  counter : live.nextId ≤ c.nextId ∧ x ≤ c.nextId
  /-- It is joined as it is in the draft. -/
  parent : c.parentLink x = staged.parentLink current.id
  children : c.childLinks x = staged.childLinks current.id
  /-- Any other table is as it was, and the table is under one id only. -/
  others : ∀ k, k ≠ x → c.bodies.get? k = if k = current.id then none else live.bodies.get? k
  /-- A join that does not touch the table is as it was. -/
  apart : ∀ i j, j.parent ≠ x → j.child ≠ x → (c.joins.get? i = some j ↔
    live.joins.get? i = some j ∧ j.parent ≠ current.id ∧ j.child ≠ current.id)

/-- It is in order, and no sequence was left behind. -/
structure Committed (live staged : Catalog) (current d : Table) (x : TableId) (c : Catalog) :
    Prop extends Realises live staged current d x c where
  wellFormed : c.WellFormed
  grouped : c.Grouped
  tended : Tended live d x [] c
  spent : live.Spent → c.Spent

/-- A table that has the body of a live one, unless it is the altered one. -/
theorem Catalog.exists_body_of_others
    (same : c.bodies.get? k = if k = current.id then none else live.bodies.get? k)
    (there : c.tables.get? k = some t) :
    k ≠ current.id ∧ ∃ l, live.tables.get? k = some l ∧ l.body = t.body := by
  rw [get?_bodies_eq_some.2 ⟨t, there, rfl⟩] at same
  split at same
  · cases same
  case isFalse apart => exact ⟨apart, get?_bodies_eq_some.1 same.symm⟩

theorem Realises.exists_body_of_ne (h : Realises live staged current d x c) (other : k ≠ x)
    (there : c.tables.get? k = some t) :
    k ≠ current.id ∧ ∃ l, live.tables.get? k = some l ∧ l.body = t.body :=
  exists_body_of_others (h.others k other) there

namespace Seated

/-- No two tables have one name, since the table has the name it had before. -/
theorem distinctNames (h : Seated live staged current d x [] c) (wf : live.WellFormed)
    (found : live.tables.get? current.id = some current) : c.DistinctNames := by
  obtain ⟨t, there, name, _⟩ := h.itself
  have elsewhere ⦃k : TableId⦄ ⦃u : Table⦄ (there' : c.tables.get? k = some u) (other : k ≠ x) :
      k ≠ current.id ∧ ∃ l, live.tables.get? k = some l ∧ l.name = u.name := by
    obtain ⟨apart, l, listed, same⟩ := exists_body_of_others (h.others k other) there'
    exact ⟨apart, l, listed, (congrArg Table.name same : l.body.name = u.body.name)⟩
  have unlike ⦃k : TableId⦄ ⦃u : Table⦄ (there' : c.tables.get? k = some u) (other : k ≠ x) :
      u.name ≠ t.name := by
    intro same
    obtain ⟨apart, l, listed, same'⟩ := elsewhere there' other
    exact apart (wf.distinctNames listed found (same'.trans (same.trans name)))
  intro k k' u u' there₁ there₂ same
  by_cases here : k = x <;> by_cases here' : k' = x
  · exact here.trans here'.symm
  · rw [here] at there₁
    cases there.symm.trans there₁
    exact absurd same.symm (unlike there₂ here')
  · rw [here'] at there₂
    cases there.symm.trans there₂
    exact absurd same (unlike there₁ here)
  · obtain ⟨_, l, listed, same₁⟩ := elsewhere there₁ here
    obtain ⟨_, l', listed', same₂⟩ := elsewhere there₂ here'
    exact wf.distinctNames listed listed' (same₁.trans (same.trans same₂.symm))

/-- Any other table is a live one up to its place. -/
theorem exists_body_of_ne (h : Seated live staged current d x [] c) (other : k ≠ x)
    (there : c.tables.get? k = some t) :
    k ≠ current.id ∧ ∃ l, live.tables.get? k = some l ∧ l.body = t.body :=
  exists_body_of_others (h.others k other) there

theorem positioned (h : Seated live staged current d x [] c) (wf : live.WellFormed)
    (planned : d.Positioned) : c.Positioned := by
  intro k t there
  by_cases same : k = x
  · obtain ⟨u, there', _, _, columns⟩ := h.itself
    rw [same, there'] at there
    cases there
    have positions : t.columns.map (·.position) = d.columns.map (·.position) := by
      rw [← List.forall₂_eq_eq_eq, List.forall₂_map_left_iff, List.forall₂_map_right_iff]
      exact columns.flip.imp fun _ _ adopting => adopting.position_eq
    unfold Table.Positioned
    rw [positions, ← columns.length_eq]
    exact planned
  · obtain ⟨_, l, listed, same⟩ := h.exists_body_of_ne same there
    exact Table.positioned_of_columns (wf.positioned listed) (congrArg Table.columns same).symm

theorem supplied (h : Seated live staged current d x [] c) : c.Supplied := by
  intro k t there s drawn
  by_cases same : k = x
  · obtain ⟨u, there', _, _, columns⟩ := h.itself
    rw [same, there'] at there
    cases there
    obtain ⟨b, inside, generated⟩ := List.mem_filterMap.1 drawn
    obtain ⟨a, _, adopting⟩ := exists_of_forall₂ columns inside
    have adopted : Adopts staged c a b := by simpa [Adopting] using adopting
    exact adopted.exists_sequence generated
  · exact h.supply k t same there s drawn

theorem indexed (h : Seated live target.catalog current d x [] c) (wf : live.WellFormed)
    (fits : target.Fits live current) (planned : target.catalog.tables.get? current.id = some d) :
    c.Indexed := by
  intro k t there index inside
  apply checkIndex_eq_ok.2
  intro name listed
  by_cases same : k = x
  · rw [same] at there
    rw [h.typeOf?_itself there]
    rw [h.indexes_itself there] at inside
    exact checkIndex_eq_ok.1 (indexed_of_valid fits.valid planned index inside) name listed
  · obtain ⟨_, l, known, same⟩ := h.exists_body_of_ne same there
    rw [← Table.body_typeOf?, ← same, Table.body_typeOf?]
    rw [← Table.body_indexes, ← same, Table.body_indexes] at inside
    exact checkIndex_eq_ok.1 (wf.indexed known index inside) name listed

theorem paired (h : Seated live target.catalog current d x [] c) (wf : live.WellFormed)
    (fits : target.Fits live current) (planned : target.catalog.tables.get? current.id = some d)
    (parent : c.parentLink x = target.catalog.parentLink current.id)
    (children : c.childLinks x = target.catalog.childLinks current.id) : c.Paired := by
  intro i j p t there above below
  have apart := h.acyclic.parent_ne_child there
  by_cases hangs : j.child = x
  · have link := h.intact.toLinked.parentLink_child there
    rw [hangs, parent] at link
    obtain ⟨_, j', there', same, below', columns⟩ :=
      fits.drafts.intact.toLinked.exists_of_parentLink link
    have other : j'.parent ≠ current.id := below' ▸ fits.acyclic.parent_ne_child there'
    rw [← columns]
    refine h.checkPair_eq_ok fits planned there' ?_ ?_ (.inl ?_) (.inr below')
    · rwa [if_neg other, same]
    · rwa [if_pos below', ← hangs]
    · rw [same, ← hangs]
      exact apart
  by_cases holds : j.parent = x
  · have link : (j.child, j.columns) ∈ c.childLinks x :=
      mem_childLinks.2 ⟨i, j, there, holds, rfl, rfl⟩
    rw [children] at link
    obtain ⟨_, j', there', above', same, columns⟩ := mem_childLinks.1 link
    have other : j'.child ≠ current.id := above' ▸ (fits.acyclic.parent_ne_child there').symm
    rw [← columns]
    refine h.checkPair_eq_ok fits planned there' ?_ ?_ (.inr above') (.inl ?_)
    · rwa [if_pos above', ← holds]
    · rwa [if_neg other, same]
    · rw [same]
      exact hangs
  obtain ⟨known, _, _⟩ := (h.apart i j holds hangs).1 there
  obtain ⟨_, l, listed, same⟩ := h.exists_body_of_ne holds above
  obtain ⟨_, l', listed', same'⟩ := h.exists_body_of_ne hangs below
  intro pair inside
  have passed := Catalog.checkPair_eq_ok.1 (wf.paired known listed listed' pair inside)
  rw [← Table.body_typeOf?, same, Table.body_typeOf?, ← Table.body_typeOf? l', same',
    Table.body_typeOf?] at passed
  exact Catalog.checkPair_eq_ok.2 passed

/-- The last step finds nothing that is not in order, and what comes out realises the draft. -/
theorem wp_settle (h : Seated live target.catalog current d x [] c)
    (fits : target.Fits live current) (planned : target.catalog.tables.get? current.id = some d)
    (wf : live.WellFormed) (found : live.tables.get? current.id = some current)
    (parent : c.parentLink x = target.catalog.parentLink current.id)
    (children : c.childLinks x = target.catalog.childLinks current.id)
    (spent : live.Spent → c.Spent) :
    WP settle (fun _ c' => Committed live target.catalog current d x c') (fun _ _ => False) c := by
  have seated : Seated live target.catalog current d x [] c.regrouped :=
    h.move h.intact.regrouped (h.acyclic.mono fun _ _ there => by rwa [joins_regrouped] at there)
      nextId_le_regrouped bodies_regrouped sequences_regrouped fun i j _ _ => by
        rw [joins_regrouped]
  have parent : c.regrouped.parentLink x = target.catalog.parentLink current.id := by
    rw [parentLink, hook_regrouped, joins_regrouped]
    exact parent
  have children : c.regrouped.childLinks x = target.catalog.childLinks current.id := by
    rw [childLinks, childJoins, joins_regrouped]
    exact children
  have names : c.regrouped.DistinctNames := seated.distinctNames wf found
  have wellFormed : c.regrouped.WellFormed :=
    seated.intact.wellFormed names
      (seated.positioned wf (fits.drafts.drafted planned).positioned) seated.supplied
      (seated.indexed wf fits planned) (seated.paired wf fits planned parent children)
      seated.acyclic
  have grouped : c.regrouped.Grouped := h.intact.toLinked.grouped_regrouped h.intact.toNumbered
  unfold settle regroup
  rw [wp_bind, wp_modify, wp_bind, wp_get, wp_lift_of_ok wellFormed.valid]
  obtain ⟨t, there, name, indexes, columns⟩ := seated.itself
  refine ⟨⟨⟨t, ?_, seated.intact.toNumbered.id_eq there, indexes, ?_⟩,
    ⟨seated.counter, seated.intact.toNumbered.tables_le there⟩, parent, children, seated.others,
    seated.apart⟩, wellFormed, grouped, seated.tended, fun old => (spent old).move moved_regrouped⟩
  · rw [← name]
    exact names.tableNamed? seated.intact.toNumbered there
  · exact columns.imp fun a b adopting => by simpa [Adopting] using adopting

end Seated

/-- The new sequences of a draft all differ, not counting their ids. -/
def Staged.Discerning (target : Staged) (live : Catalog) : Prop :=
  ((target.catalog.sequences.values.filter (live.nextId < ·.id)).map ({ · with id := 0 })).Nodup

instance : Decidable (target.Discerning live) :=
  inferInstanceAs (Decidable (List.Nodup _))

/-- Two new sequences that are alike but for their ids are one. -/
theorem Staged.Discerning.eq_of_alike {s s' : SequenceId} {q q' : Sequence}
    (h : target.Discerning live) (numbered : target.catalog.Numbered)
    (planned : target.catalog.sequences.get? s = some q)
    (planned' : target.catalog.sequences.get? s' = some q') (new : live.nextId < s)
    (new' : live.nextId < s') (alike : { q with id := x } = { q' with id := x }) : s = s' := by
  have own := (numbered.sequences planned).1
  have own' := (numbered.sequences planned').1
  have listed : q ∈ target.catalog.sequences.values.filter (live.nextId < ·.id) :=
    List.mem_filter.2 ⟨OrderedMap.mem_values planned, by simpa [own] using new⟩
  have listed' : q' ∈ target.catalog.sequences.values.filter (live.nextId < ·.id) :=
    List.mem_filter.2 ⟨OrderedMap.mem_values planned', by simpa [own'] using new'⟩
  have blank : ({ q with id := 0 } : Sequence) = { q' with id := 0 } :=
    congrArg (fun q : Sequence => { q with id := 0 }) alike
  rw [← own, List.inj_on_of_nodup_map h listed listed' blank, own']

/-- A column draws from what it is to draw from, or both are new. -/
theorem Renews.eq_or_new {s s' : SequenceId} (h : Renews live a b) (planned : a.identity = some s)
    (drawn : b.identity = some s') : s = s' ∨ live.nextId < s ∧ live.nextId < s' := by
  cases h with
  | same same => exact .inl (Option.some.inj (planned.symm.trans (same.symm.trans drawn)))
  | new planned' drawn' above above' =>
    cases planned.symm.trans planned'
    cases drawn.symm.trans drawn'
    exact .inr ⟨above, above'⟩

/-- Columns that draw from one sequence are to draw from one. -/
theorem Adopts.exists_planned {a' b' : Column} {s : SequenceId}
    (h : Adopts target.catalog c a b) (h' : Adopts target.catalog c a' b')
    (renews : Renews live a b) (renews' : Renews live a' b') (numbered : target.catalog.Numbered)
    (discerning : target.Discerning live) (drawn : b.identity = some s)
    (drawn' : b'.identity = some s) :
    ∃ s₀, a.identity = some s₀ ∧ a'.identity = some s₀ := by
  cases h with
  | plain none => rw [none] at drawn; cases drawn
  | @generated s₀ _ q generated planned supplied =>
  cases h' with
  | plain none => rw [none] at drawn'; cases drawn'
  | @generated s₀' _ q' generated' planned' supplied' =>
  cases drawn
  cases drawn'
  refine ⟨s₀, generated, ?_⟩
  have told (new : live.nextId < s₀) (new' : live.nextId < s₀') : a'.identity = some s₀ := by
    rw [generated', discerning.eq_of_alike numbered planned planned' new new'
      (Option.some.inj (supplied.symm.trans supplied'))]
  obtain rfl | ⟨new, drawn⟩ := renews.eq_or_new generated rfl <;>
    obtain rfl | ⟨new', drawn'⟩ := renews'.eq_or_new generated' rfl
  · exact generated'
  · exact told drawn' new'
  · exact told new drawn
  · exact told new new'

/-- Related lists tell their members apart alike. -/
theorem nodup_filterMap_of_forall₂ {α β γ δ : Type} {R : α → β → Prop} {f : α → Option γ}
    {g : β → Option δ} {l : List α} {l' : List β} (h : List.Forall₂ R l l')
    (distinct : (l.filterMap f).Nodup)
    (same : ∀ ⦃a a' b b' z⦄, R a b → R a' b' → g b = some z → g b' = some z →
      ∃ y, f a = some y ∧ f a' = some y) : (l'.filterMap g).Nodup := by
  induction h with
  | nil => exact .nil
  | @cons a b l l' first rest ih =>
    have distinct' : (l.filterMap f).Nodup :=
      distinct.sublist ((List.sublist_cons_self a l).filterMap f)
    cases drawn : g b with
    | none => rw [List.filterMap_cons_none drawn]; exact ih distinct'
    | some z =>
      rw [List.filterMap_cons_some drawn]
      refine List.nodup_cons.2 ⟨fun inside => ?_, ih distinct'⟩
      obtain ⟨b', inside, drawn'⟩ := List.mem_filterMap.1 inside
      obtain ⟨a', inside, related⟩ := exists_of_forall₂ rest inside
      obtain ⟨y, here, there⟩ := same first related drawn drawn'
      rw [List.filterMap_cons_some here] at distinct
      exact (List.nodup_cons.1 distinct).1 (List.mem_filterMap.2 ⟨a', inside, there⟩)

/-- Where no live sequence is drawn from twice, none is drawn from twice by what was committed, as
long as the new sequences of the draft differ. -/
theorem Committed.sequencesApart (h : Committed live target.catalog current d x c)
    (wf : live.WellFormed) (apart : live.SequencesApart)
    (found : live.tables.get? current.id = some current) (fits : target.Fits live current)
    (planned : target.catalog.tables.get? current.id = some d)
    (discerning : target.Discerning live) : c.SequencesApart := by
  have numbered := h.wellFormed.numbered
  obtain ⟨t, named, rfl, _, adopted⟩ := h.itself
  obtain ⟨itself, _⟩ := numbered.get?_of_tableNamed? named
  -- what the table shares with another one would be live, and one that the table drew from before
  have unshared ⦃k : TableId⦄ ⦃u : Table⦄ ⦃s : SequenceId⦄ (there : c.tables.get? k = some u)
      (other : k ≠ t.id) (drawn : s ∈ t.sequenceIds) (drawn' : s ∈ u.sequenceIds) : False := by
    obtain ⟨apart', l, listed, same⟩ := h.toRealises.exists_body_of_ne other there
    rw [← Table.body_sequenceIds, ← same, Table.body_sequenceIds] at drawn'
    obtain ⟨q, supplied⟩ := wf.supplied listed s drawn'
    have old := (wf.numbered.sequences supplied).2
    have planned' := h.tended.mem_of_drawn itself drawn old
    obtain before | new := (fits.drafts.drafted planned).drawn s planned'
    · exact apart' (apart.eq_of_mem wf.numbered listed found drawn' before)
    · exact Nat.not_lt.2 old new
  refine numbered.sequencesApart (fun k u there => ?_)
    fun k k' u v s there there' drawn drawn' => ?_
  · by_cases same : k = t.id
    · rw [same, itself] at there
      cases there
      have related := adopted.mp (fun _ _ => And.intro) (h.tended.renews itself)
      refine nodup_filterMap_of_forall₂ related ((fits.drafts.supply apart).2 d planned) ?_
      rintro a a' b b' s ⟨like, renews⟩ ⟨like', renews'⟩ drawn drawn'
      exact like.exists_planned like' renews renews' fits.drafts.intact.toNumbered discerning drawn
        drawn'
    · obtain ⟨_, l, listed, body⟩ := h.toRealises.exists_body_of_ne same there
      rw [← Table.body_sequenceIds, ← body, Table.body_sequenceIds]
      exact apart.nodup listed
  · by_cases here : k = t.id <;> by_cases here' : k' = t.id
    · exact here.trans here'.symm
    · rw [here, itself] at there
      cases there
      exact (unshared there' here' drawn drawn').elim
    · rw [here', itself] at there'
      cases there'
      exact (unshared there here drawn' drawn).elim
    · obtain ⟨_, l, listed, same⟩ := h.toRealises.exists_body_of_ne here there
      obtain ⟨_, l', listed', same'⟩ := h.toRealises.exists_body_of_ne here' there'
      rw [← Table.body_sequenceIds, ← same, Table.body_sequenceIds] at drawn
      rw [← Table.body_sequenceIds, ← same', Table.body_sequenceIds] at drawn'
      exact apart.eq_of_mem wf.numbered listed listed' drawn drawn'

end GroupedTables
