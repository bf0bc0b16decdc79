import GroupedTables.Proofs.Alter.Sketching

/-!
# Where the columns of a plan come from

A draft starts with the columns that stay, under their names now, and its edits do to them what
they do to their sketches. So in a plan first stand the columns that come from the table as it was,
in their order, and then those that are added. Which column stays, and under which name, is said by
the first element that names it.
-/

namespace GroupedTables

open GroupedTables.Action Catalog

variable {σ : Type} {live c : Catalog} {current t : Table} {changes : List Change} {a : Column}
  {name : String} {rest : List Column} {sequences : OrderedMap Sequence} {p : Table → Bool}

/-- A column that stays is as it was, but for its name. -/
theorem Sketch.fits_ofColumn (old : ∀ s ∈ a.identity, s ≤ live.nextId) :
    (ofColumn a name).Fits live sequences { a with name } := by
  refine ⟨rfl, rfl, rfl, rfl, ?_⟩
  cases generated : a.identity with
  | none => simp [ofColumn, generated, Supply.Meets]
  | some s => simpa [ofColumn, generated, Supply.Meets] using old s generated

namespace Sketched

/-- Of the columns that stay those before some are back, and no sequence has changed. -/
structure Returning (live : Catalog) (current : Table) (changes : List Change)
    (sequences : OrderedMap Sequence) (rest : List Column) (c : Catalog) : Prop where
  back : ∃ t before, c.tables.get? current.id = some t ∧ before ++ rest = current.columns ∧
    List.Forall₂ (Sketch.Fits live c.sequences) (Sketch.kept changes before) t.columns
  same : c.sequences = sequences

variable (wf : live.WellFormed) (found : live.tables.get? current.id = some current)

include wf found

theorem Returning.wp_keepColumn (h : Returning live current changes sequences (a :: rest) c) :
    WP (Draft.keepColumn current.id changes a)
      (fun _ => Returning live current changes sequences rest) (fun _ _ => True) c := by
  obtain ⟨⟨t, before, there, ahead, fits⟩, same⟩ := h
  have ahead' : (before ++ [a]) ++ rest = current.columns :=
    (List.append_assoc ..).trans ahead
  unfold Draft.keepColumn
  split
  case h_1 name stays =>
    refine wp_addColumn there (fun _ _ _ => trivial) fun _ =>
      ⟨⟨_, before ++ [a], get?_editing_self there, ahead', ?_⟩, same⟩
    have old : ∀ s ∈ a.identity, s ≤ live.nextId := fun s =>
      le_nextId wf found (ahead ▸ List.mem_append_right _ (.head _))
    rw [Sketch.kept, List.filterMap_append, List.filterMap_cons_some (b := Sketch.ofColumn a name)
      (by rw [stays]; rfl)]
    exact List.rel_append fits (.cons { Sketch.fits_ofColumn old with } .nil)
  case h_2 gone =>
    refine ⟨⟨t, before ++ [a], there, ahead', ?_⟩, same⟩
    rw [Sketch.kept, List.filterMap_append, List.filterMap_cons_none (by rw [gone]; rfl),
      List.filterMap_nil, List.append_nil]
    exact fits

omit wf found in
/-- The columns that stay are as they were sketched, if there is no new sequence. -/
theorem of_kept (there : c.tables.get? current.id = some t)
    (fits : List.Forall₂ (Sketch.Fits live c.sequences) (Sketch.kept changes current.columns)
      t.columns)
    (known : ∀ ⦃s q⦄, c.sequences.get? s = some q → s ≤ live.nextId) :
    Sketched live current (Sketch.kept changes current.columns) t c := by
  have stays {sketch : Sketch} (listed : sketch ∈ Sketch.kept changes current.columns) :
      ∃ a ∈ current.columns, ∃ name, sketch = .ofColumn a name := by
    obtain ⟨a, inside, kept⟩ := List.mem_filterMap.1 listed
    obtain ⟨name, _, rfl⟩ := Option.map_eq_some_iff.1 kept
    exact ⟨a, inside, name, rfl⟩
  refine ⟨there, fits, fun s q found' above => absurd (known found') (Nat.not_le.2 above), ?_,
    fun sketch listed a origin => ?_, fun sketch listed a origin s generated => ?_⟩
  · suffices t.sequenceIds.filter (fun s => live.nextId < s) = [] by simp [this]
    refine List.filter_eq_nil_iff.2 fun s drawn => ?_
    obtain ⟨column, inside, generated⟩ := List.mem_filterMap.1 drawn
    obtain ⟨sketch, listed, fit⟩ := exists_of_forall₂ fits inside
    obtain ⟨a, inside, name, rfl⟩ := stays listed
    have supply := fit.supply
    rw [generated] at supply
    cases drawn : a.identity with
    | none =>
      simp [Sketch.ofColumn, drawn, Supply.Meets] at supply
    | some s' =>
      simp only [Sketch.ofColumn, drawn, Option.elim_some, Supply.Meets] at supply
      obtain ⟨same, old⟩ := supply
      cases same
      simpa using old
  · obtain ⟨b, inside, name, rfl⟩ := stays listed
    cases origin
    exact inside
  · obtain ⟨b, inside, name, rfl⟩ := stays listed
    cases origin
    left
    simp only [Sketch.ofColumn]
    rw [Option.mem_def.1 generated]
    rfl

/-- A draft starts with the columns that stay. -/
theorem wp_resetTable (passes : p current = true) :
    WP (Draft.resetTable current changes)
      (fun _ c => ∃ t, Sketched live current (Sketch.kept changes current.columns) t c)
      (fun _ _ => True) (live.select p) := by
  obtain ⟨t, there, _⟩ := exists_select_of_whole wf.numbered found passes
  unfold Draft.resetTable
  simp only [wp_bind, wp_discard]
  rw [wp_dropColumns there, wp_bind, wp_discard, wp_removeIndexes (get?_editing_self there),
    wp_bind]
  refine wp_forM (fun rest c => Drafts.Resetting live current changes rest c ∧
    Returning live current changes (live.select p).sequences rest c)
    ⟨Drafts.resetting_emptied wf found passes, ?_⟩ ?_ ?_
  · exact ⟨⟨_, [], get?_editing_self (get?_editing_self there), rfl, .nil⟩, rfl⟩
  · rintro c ⟨reset, ⟨t, before, there, all, fits⟩, same⟩
    obtain ⟨names, drafts, _⟩ := reset.drafts
    rw [List.append_nil] at all
    subst all
    refine wp_discard.2 (wp_remapJoinColumns drafts.intact.toLinked fun _ => ?_)
    obtain ⟨u, there', body⟩ := exists_of_bodies bodies_following there
    have columns : u.body.columns = t.body.columns := congrArg Table.columns body
    refine ⟨u, of_kept there' ?_ fun s q found' => ?_⟩
    · rw [sequences_following, ← u.body_columns, columns]
      exact fits
    · rw [sequences_following, same] at found'
      exact nextId_select wf.numbered ▸ (wf.intact.select.sequences found').2
  · rintro column rest c ⟨reset, returning⟩
    exact ((reset.step wf found).and (returning.wp_keepColumn wf found)).mono
      (fun _ _ => id) fun _ _ _ => trivial

end Sketched

/-- Where only some members of a list have a counterpart, these are related in their order. -/
theorem forall₂_filter_of_filterMap {α β γ : Type} {f : α → Option β} {R : β → γ → Prop}
    {l : List α} {l' : List γ} (h : List.Forall₂ R (l.filterMap f) l') :
    List.Forall₂ (fun a c => ∃ b, f a = some b ∧ R b c) (l.filter fun a => (f a).isSome) l' := by
  induction l generalizing l' with
  | nil => simpa using h
  | cons a rest ih =>
    cases found : f a with
    | none =>
      rw [List.filterMap_cons_none found] at h
      rw [List.filter_cons_of_neg (by simp [found])]
      exact ih h
    | some b =>
      rw [List.filterMap_cons_some found] at h
      rw [List.filter_cons_of_pos (by simp [found])]
      cases h with
      | cons first others => exact .cons ⟨b, found, first⟩ (ih others)

/-- A column comes from one of the table as it was: it has the name that the changes give that one,
and is what the edits of its name make of it. A live sequence it no longer draws from is gone,
unless some other table draws from it. -/
structure Descends (live : Catalog) (current : Table) (e : Edits) (c : Catalog)
    (a column : Column) : Prop where
  named : Change.finalName? e.columnChanges a.name = some column.name
  fits : ((Sketch.ofColumn a column.name).through live current.name e.columns).Fits live
    c.sequences column
  retired : ∀ s ∈ a.identity,
    ((Sketch.ofColumn a column.name).through live current.name e.columns).supply = .live s ∨
      c.SparesFor current.id s

/-- First stand the columns that come from the table as it was, then those that are added. -/
theorem Sketched.exists_parts {e : Edits}
    (h : Sketched live current (Sketch.ofEdits live current e) t c) :
    ∃ kept added, t.columns = kept ++ added ∧
      List.Forall₂ (Descends live current e c)
        (current.columns.filter fun a => (Change.finalName? e.columnChanges a.name).isSome) kept ∧
      List.Forall₂ (Sketch.Fits live c.sequences) (Sketch.added live current.name e.columns)
        added := by
  have fits := Sketch.ofEdits_eq ▸ h.fits
  refine ⟨_, _, (List.take_append_drop _ _).symm, ?_,
    (List.forall₂_drop_append _ _ _ fits.flip).flip⟩
  have kept := (List.forall₂_take_append _ _ _ fits.flip).flip
  rw [List.forall₂_map_left_iff, Sketch.kept] at kept
  have kept := forall₂_mem (forall₂_filter_of_filterMap kept)
  simp only [Option.isSome_map] at kept
  refine kept.imp fun a column ⟨⟨s, stays, fits⟩, inside, _⟩ => ?_
  obtain ⟨name, final, rfl⟩ := Option.map_eq_some_iff.1 stays
  obtain rfl : column.name = name := fits.name.trans Sketch.name_through
  have listed : (Sketch.ofColumn a column.name).through live current.name e.columns ∈
      Sketch.ofEdits live current e := by
    rw [Sketch.ofEdits_eq]
    exact List.mem_append_left _ (List.mem_map_of_mem
      (List.mem_filterMap.2 ⟨a, (List.mem_filter.1 inside).1, stays⟩))
  exact ⟨final, fits, h.retired _ listed a Sketch.origin_through⟩

namespace Planner

variable (wf : live.WellFormed) (found : live.tables.get? current.id = some current)

include wf found

/-- The columns of a plan are as they were sketched. -/
theorem wp_plan_sketched (planner : Planner σ) (e : Edits) (k : Context) :
    WP (planner.plan live current.id current e)
      (fun plan _ => ∃ t, Sketched live current (Sketch.ofEdits live current e) t
        plan.staged.catalog)
      (fun _ _ => True) k := by
  refine planner.wp_plan_drafted fun test k passes _ => ?_
  rw [wp_bind]
  refine wp_within.2 (((Drafts.keeps_resetTable wf found passes).and
    (Sketched.wp_resetTable wf found passes)).mono (fun _ c ⟨drafts, start⟩ => ?_)
    fun _ _ _ => trivial)
  -- What the edits still to come make of the sketches is the same all along.
  refine planner.wp_draftEdits_of
    (fun rest d => ∃ names sketches t, Drafts live current names d.catalog ∧
      Sketched live current sketches t d.catalog ∧
      rest.foldl (Sketch.edited live current.name) sketches = Sketch.ofEdits live current e)
    (fun _ _ d => ∃ t, Sketched live current (Sketch.ofEdits live current e) t d.catalog)
    (fun _ _ d => ∃ t, Sketched live current (Sketch.ofEdits live current e) t d.catalog)
    ?_ ?_ ?_
    (fun index _ changes d h => Draft.preserves_edit
      (Sketched.ignoresIndexes.preserves_keepIndex e.columnChanges changes index) d h)
    (fun _ _ h => h)
    (fun key _ names changes d h => Draft.preserves_edit
      (Sketched.ignoresIndexes.preserves_addKey names changes key) d h)
    (fun parent _ _ d h => Draft.preserves_edit
      ((Sketched.ignoresPlaces wf).preserves_applyParentEdit wf.numbered current planner.schema
        parent) d h)
    fun _ _ h => ⟨fun _ _ => trivial, fun _ => h⟩
  · obtain ⟨t, start⟩ := start
    exact ⟨_, _, t, drafts, start, rfl⟩
  · rintro edit rest d ⟨names, sketches, t, drafts, h, ahead⟩
    exact ((drafts.keeps_applyColumnEdit wf found edit).and
      (Sketched.follows_applyColumnEdit wf found h drafts edit)).mono
      (fun _ d ⟨drafts, t, h⟩ => ⟨_, _, t, drafts, h, ahead⟩) fun _ _ _ => trivial
  · rintro d ⟨names, sketches, t, drafts, h, ahead⟩
    refine (Draft.preserves_onContext (P := fun c => ∃ t, Sketched live current
      (Sketch.ofEdits live current e) t c) Context.checkCancelled d ⟨t, ahead ▸ h⟩).mono_post ?_
    exact fun _ d h => ⟨fun _ _ _ _ => trivial, fun _ => h⟩

omit wf found in
/-- A table that is classified has a column of every new name that the list of changes gives. -/
theorem mem_columnNames_of_classify {target : Staged} {indexChanges : List Change} {level : Level}
    {change : Change} (found : live.tables.get? current.id = some current)
    (defined : target.definition = .ok t)
    (classified : Level.classify live current.id target changes indexChanges = .ok level)
    (listed : change ∈ changes) (new : change.newName? = some name) : name ∈ t.columnNames := by
  unfold Level.classify at classified
  rw [table_of_get? found, defined] at classified
  obtain ⟨_, ⟨⟩, classified⟩ := Check.bind_eq_ok.1 classified
  obtain ⟨_, ⟨⟩, classified⟩ := Check.bind_eq_ok.1 classified
  obtain ⟨_, checked, _⟩ := Check.bind_eq_ok.1 classified
  have passed := Check.forM_eq_ok.1 checked change listed
  unfold Level.checkColumnChange at passed
  rw [new] at passed
  by_contra missing
  have missing : t.missingColumn? [name] = some name := by
    have none : t.column? name = none := by
      rwa [← Option.not_isSome_iff_eq_none, Table.column?_isSome_iff]
    simp [Table.missingColumn?, none]
  simp only [Option.toList_some, missing] at passed
  split at passed <;> cases passed

variable {planner : Planner σ} {elements : List Element} {e : Edits} {plan : Plan} {k k' : Context}
  {level : Level}

/-- The first element that names a column decides what becomes of it. If it drops the column, none
comes from it; otherwise one does, under the name that this element leaves it with. Besides these
there are only the columns that are added. Whatever else the elements say of a column, it was there,
and the name they give it is that of some column. -/
theorem columns_of_first (route : Route.ofElements current elements = .ok (.edit e))
    (planned : planner.plan live current.id current e k = .ok plan k')
    (classified : Level.classify live current.id plan.staged plan.columnChanges
      plan.indexChanges = .ok level) :
    ∃ d kept added, plan.staged.definition = .ok d ∧ d.columns = kept ++ added ∧
      List.Forall₂ (fun a column => column.name = Element.givenName elements a.name ∧
          Descends live current e plan.staged.catalog a column)
        (current.columns.filter fun a =>
          Element.firstNaming? elements a.name ≠ some (.dropColumn a.name)) kept ∧
      List.Forall₂ (Sketch.Fits live plan.staged.catalog.sequences)
        (Sketch.added live current.name (elements.filterMap Element.columnEdit?)) added ∧
      ∀ change ∈ elements.filterMap Element.columnChange?,
        (∀ old ∈ change.oldName?, old ∈ current.columnNames) ∧
        ∀ new ∈ change.newName?, new ∈ d.columnNames := by
  obtain rfl := Route.edits_eq route
  obtain ⟨fits, same, _⟩ := (planner.wp_plan wf found _ k).ok planned
  have accounts :=
    (planner.wp_plan_accounts wf found _ k fun _ => Edits.isDrop_of_ofElements).ok planned
  obtain ⟨d, sketched⟩ := (wp_plan_sketched wf found planner _ k).ok planned
  have defined := fits.definition_eq sketched.there
  obtain ⟨kept, added, parts, stay, new⟩ := sketched.exists_parts
  have changes : plan.columnChanges = elements.filterMap Element.columnChange? := same
  have final (a : Column) : Change.finalName?
      (Edits.ofElements current elements).columnChanges a.name = _ := Element.finalName?_eq_ite
  have stays (a : Column) :
      (Change.finalName? (Edits.ofElements current elements).columnChanges a.name).isSome =
        decide (Element.firstNaming? elements a.name ≠ some (.dropColumn a.name)) := by
    rw [final]
    split <;> simp [*]
  refine ⟨d, kept, added, defined, parts, ?_, new, fun change listed => ⟨fun old named => ?_,
    fun name named => ?_⟩⟩
  · simp only [stays] at stay
    refine (forall₂_mem stay).imp fun a column ⟨descends, inside, _⟩ => ⟨?_, descends⟩
    have named := descends.named
    rw [final, if_neg (of_decide_eq_true (List.mem_filter.1 inside).2)] at named
    exact (Option.some.inj named).symm
  · exact Change.mem_columnNames_of_oldName? (accounts.named change (changes ▸ listed)) named
  · exact mem_columnNames_of_classify found defined classified (changes ▸ listed) named

/-- Gives the customer of the orders another name, and drops it too late. -/
def droppedLate : List Element := [.renameColumn "customer" "client", .dropColumn "customer"]

omit wf found in
/-- The customer is there under its new name. -/
theorem columns_of_first_shop : ∃ e plan k d,
    Route.ofElements orders droppedLate = .ok (.edit e) ∧
    swapping.plan shop 2 orders e {} = .ok plan k ∧
    Level.classify shop 2 plan.staged plan.columnChanges plan.indexChanges = .ok .metadata ∧
    plan.staged.definition = .ok d ∧ d.columnNames = ["number", "client"] := by
  have route : Route.ofElements orders droppedLate =
      .ok (.edit (Edits.ofElements orders droppedLate)) := rfl
  obtain ⟨plan, k, planned, classified⟩ := exists_ok_of_wp (show
    WP (swapping.plan shop 2 orders (Edits.ofElements orders droppedLate))
      (fun plan _ =>
        Level.classify shop 2 plan.staged plan.columnChanges plan.indexChanges = .ok .metadata)
      (fun _ _ => False) {} by decide +kernel)
  obtain ⟨d, kept, added, defined, parts, stay, new, _⟩ :=
    columns_of_first shop_wellFormed get?_shop_orders route planned classified
  have all : (orders.columns.filter fun a => Element.firstNaming? droppedLate a.name ≠
      some (.dropColumn a.name)) = orders.columns := by decide +kernel
  rw [all] at stay
  have names : kept.map (·.name) = orders.columns.map fun a =>
      Element.givenName droppedLate a.name := by
    rw [← List.forall₂_eq_eq_eq, List.forall₂_map_left_iff, List.forall₂_map_right_iff]
    exact (stay.imp fun _ _ descends => descends.1).flip
  cases new
  refine ⟨_, plan, k, d, route, planned, classified, defined, ?_⟩
  rw [Table.columnNames, parts, List.append_nil, names]
  decide +kernel

omit wf found in
/-- A column that is modified first and then dropped stays as it was, and the statement costs no
more than a change of the catalog. -/
theorem not_dropped_of_modified_first : ∃ e plan k d,
    shop.WellFormed ∧ shop.tables.get? orders.id = some orders ∧
    Route.ofElements orders [.modifyColumn "customer" .null, .dropColumn "customer"] =
      .ok (.edit e) ∧
    swapping.plan shop 2 orders e {} = .ok plan k ∧
    Level.classify shop 2 plan.staged plan.columnChanges plan.indexChanges = .ok .metadata ∧
    plan.staged.definition = .ok d ∧ d.columns = orders.columns := by
  obtain ⟨plan, k, planned, classified, same⟩ := exists_ok_of_wp (show
    WP (swapping.plan shop 2 orders (Edits.ofElements orders
        [.modifyColumn "customer" .null, .dropColumn "customer"]))
      (fun plan _ =>
        Level.classify shop 2 plan.staged plan.columnChanges plan.indexChanges = .ok .metadata ∧
        plan.staged.definition.toOption.map Table.columns = some orders.columns)
      (fun _ _ => False) {} by decide +kernel)
  obtain ⟨d, defined, columns⟩ := Staged.exists_definition same
  exact ⟨_, plan, k, d, shop_wellFormed, get?_shop_orders, rfl, planned, classified, defined,
    columns⟩

end Planner

end GroupedTables
