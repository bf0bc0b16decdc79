import GroupedTables.Proofs.Alter.Accounting
import GroupedTables.Proofs.Alter.Altering
import GroupedTables.Proofs.Alter.Blame
import GroupedTables.Proofs.Catalog.Remapping
import GroupedTables.Proofs.Catalog.Trees

/-!
# Leaving the parent

A table that is to be taken off its parent has to be under one when its draft comes to that. By
then its columns are the ones that stay, and the joins have followed them: a join that lost one of
its columns is gone. So it is not enough that the table has a parent to leave. A statement that
also drops a column of the join is refused as if there were none.
-/

namespace GroupedTables

open GroupedTables.Action Catalog

variable {σ : Type} {live c : Catalog} {current : Table} {changes : List Change}
  {stays : Option JoinId} {elements : List Element}

/-- The join of a table under its parent, unless the table loses one of its columns. -/
def keptJoin? (live : Catalog) (current : Table) (changes : List Change) : Option JoinId :=
  current.parentJoin.filter fun i =>
    (live.joins.get? i).any (·.survives current.id (Change.finalName? changes))

/-- Joins and tables tell the same, and the table hangs on the join that is named, if any. -/
def HangsOn (current : Table) (stays : Option JoinId) (c : Catalog) : Prop :=
  c.Linked ∧ c.hook current.id = stays

namespace HangsOn

theorem editing {id : TableId} {f : Table → Table} (h : HangsOn current stays c)
    (same : ∀ t, (f t).parentJoin = t.parentJoin) : HangsOn current stays (c.editing id f) :=
  ⟨h.1.editing same, (hook_editing same).trans h.2⟩

theorem ignoresColumns {id : TableId} : IgnoresColumns id (HangsOn current stays) where
  editing c f columns h := h.editing fun t => by
    obtain ⟨columns, same⟩ := columns t
    rw [same]
  supplied _ _ _ h := ⟨⟨h.1.hook_iff, h.1.parent⟩, h.2⟩

theorem ignoresIndexes {id : TableId} : IgnoresIndexes id (HangsOn current stays) :=
  fun _ _ indexes h => h.editing fun t => by
    obtain ⟨indexes, same⟩ := indexes t
    rw [same]

/-- Leaving a parent fails for want of one exactly if the table hangs on no join. -/
theorem wp_leaveParent (h : HangsOn current stays c) :
    WP (Draft.leaveParent current) (fun _ c => stays.isSome = true ∧ c.hook current.id = none)
      (fun f _ => stays.isSome = true → f.Elsewhere) c := by
  obtain ⟨linked, rfl⟩ := h
  unfold Draft.leaveParent
  rw [wp_bind]
  cases there : c.tables.get? current.id with
  | none =>
    unfold clearParentJoin
    simp only [wp_bind, wp_get]
    exact (wp_table_of_none there).2 fun _ => trivial
  | some t =>
    rw [wp_of_ok (clearParentJoin_eq linked there), wp_ite]
    cases hung : c.hook current.id with
    | none => exact ⟨fun _ hangs => absurd hangs Bool.false_ne_true, fun left => absurd rfl left⟩
    | some i =>
      obtain ⟨j, joined, _⟩ := (linked.hook_iff _ _).1 hung
      rw [Option.bind_some, joined]
      exact ⟨fun absent => absurd absent Bool.false_ne_true,
        fun _ => ⟨rfl, hook_detached.trans (if_pos rfl)⟩⟩

end HangsOn

section

variable {root : TableId} (wf : live.WellFormed)
  (found : live.tables.get? current.id = some current)

include wf found

/-- What the table hangs on once the joins of its tree have followed its columns. -/
theorem hook_following_tree (rooted : live.rootOf current.id = .ok root) (intact : c.Intact)
    (joins : c.joins = live.selectedJoins (live.hasRoot root)) :
    (c.following current.id (Change.finalName? changes)).hook current.id =
      keptJoin? live current changes := by
  have addressed := intact.toNumbered.addressed
  have linked := intact.toLinked
  apply Option.ext
  intro i
  rw [linked.following.hook_iff]
  simp only [get?_joins_following addressed linked, Option.map_eq_some_iff,
    Option.filter_eq_some_iff, joins, ← joins_select wf.numbered, wf.get?_joins_tree, keptJoin?,
    ← hook_of_get? found, wf.intact.toLinked.hook_iff]
  have touches {j : Join} (below : j.child = current.id) : j.touches current.id = true := by
    rw [Join.touches, beq_iff_eq.2 below, Bool.true_or]
  constructor
  · rintro ⟨_, ⟨j, ⟨⟨there, _⟩, survives⟩, rfl⟩, below⟩
    have below : j.child = current.id := by
      split at below <;> exact below
    rw [touches below, Bool.not_true, Bool.false_or] at survives
    rw [there]
    exact ⟨⟨j, rfl, below⟩, survives⟩
  · rintro ⟨⟨j, there, below⟩, survives⟩
    rw [there] at survives
    refine ⟨_, ⟨j, ⟨⟨there, below ▸ rooted⟩, ?_⟩, rfl⟩, ?_⟩
    · rw [touches below]
      exact survives
    · split <;> exact below

theorem HangsOn.wp_resetTable (rooted : live.rootOf current.id = .ok root) :
    WP (Draft.resetTable current changes)
      (fun _ => HangsOn current (keptJoin? live current changes)) (fun f _ => f.Elsewhere)
      (live.select (live.hasRoot root)) := by
  have passes : live.hasRoot root current = true := hasRoot_iff.2 rooted
  have ignores : IgnoresColumns current.id fun c : Catalog =>
      c.joins = live.selectedJoins (live.hasRoot root) := ⟨fun _ _ _ h => h, fun _ _ _ h => h⟩
  have reset : WP (Draft.resetTable current changes)
      (fun _ => HangsOn current (keptJoin? live current changes)) (fun _ _ => True)
      (live.select (live.hasRoot root)) :=
    Drafts.wp_resetTable_of wf found passes ignores (joins_emptied wf) fun _ intact joins =>
      ⟨intact.toLinked.following, hook_following_tree wf found rooted intact joins⟩
  exact (reset.and (Draft.elsewhere_resetTable current changes _)).mono (fun _ _ h => h.1)
    fun _ _ h => h.2

end

namespace Planner

/-- What comes before the parent is left neither hangs the table elsewhere nor blames it. -/
theorem wp_draftEdits_leaving (p : Planner σ) {e : Edits} {d : Draft}
    (asks : e.parents = [.leave]) (h : HangsOn current stays d.catalog) :
    WP (p.draftEdits live current.id current e)
      (fun _ d => stays.isSome = true ∧ d.catalog.hook current.id = none)
      (fun f _ => stays.isSome = true → f.Elsewhere) d := by
  have keeps {α : Type} {act : Action Draft α}
      (preserves : Preserves (fun d => HangsOn current stays d.catalog) act)
      (limits : Limits Fault.Elsewhere act) {d : Draft} (h : HangsOn current stays d.catalog) :
      WP act (fun _ d => HangsOn current stays d.catalog)
        (fun f _ => stays.isSome = true → f.Elsewhere) d :=
    ((preserves d h).and (limits d)).mono (fun _ _ h => h.1) fun _ _ h _ => h.2
  -- Once the parent is left, the table hangs on nothing, and there was something to leave.
  refine p.wp_draftEdits_through (fun _ d => HangsOn current stays d.catalog)
    (fun _ _ d => HangsOn current stays d.catalog) (fun _ _ d => HangsOn current stays d.catalog)
    (fun rest _ d => rest = [.leave] ∧ HangsOn current stays d.catalog ∨
      rest = [] ∧ stays.isSome = true ∧ d.catalog.hook current.id = none)
    h ?_ ?_ ?_ (fun _ _ h => h) ?_ (fun _ _ h => .inl ⟨asks, h⟩) ?_ ?_
  · exact fun edit _ _ h => keeps (HangsOn.ignoresColumns.preserves_applyColumnEdit edit)
      (Draft.elsewhere_applyColumnEdit current.id edit) h
  · intro d h
    refine (keeps (Draft.preserves_onContext _) Context.elsewhere_checkCancelled.within h).mono_post
      fun _ d h => ⟨fun change _ f failed _ => ?_, fun _ => h⟩
    exact Draft.limits_checkIndexChange (fun _ _ => trivial) (fun _ _ => trivial) change f failed
  · exact fun index _ changes _ h => keeps
      (Draft.preserves_edit (HangsOn.ignoresIndexes.preserves_keepIndex _ changes index))
      (Draft.elsewhere_keepIndex current.id _ changes index).within h
  · exact fun key _ names changes _ h => keeps
      (Draft.preserves_edit (HangsOn.ignoresIndexes.preserves_addKey names changes key))
      (Draft.elsewhere_addKey current.id names changes key).within h
  · rintro parent rest changes d (⟨ahead, h⟩ | ⟨ahead, _⟩)
    · cases ahead
      exact wp_within.2 (h.wp_leaveParent.mono_post fun _ _ left => .inr ⟨rfl, left⟩)
    · cases ahead
  · rintro changes d (⟨ahead, _⟩ | ⟨_, left⟩)
    · cases ahead
    · exact ⟨fun f failed _ => elsewhere_validate d.catalog f failed, fun _ => left⟩

variable (wf : live.WellFormed) (found : live.tables.get? current.id = some current)

include wf found

/-- A plan for a table that leaves its parent comes about only if the table has one that it did not
lose with a column, and then nothing is blamed on the want of one. The table has none afterwards. -/
theorem wp_plan_leaving (p : Planner σ) {e : Edits} (asks : e.parents = [.leave]) (k : Context) :
    WP (p.plan live current.id current e)
      (fun plan _ => (keptJoin? live current e.columnChanges).isSome = true ∧
        plan.staged.catalog.hook current.id = none)
      (fun f _ => (keptJoin? live current e.columnChanges).isSome = true → f.Elsewhere) k := by
  refine p.wp_plan_of ((Context.elsewhere_checkCancelled k).mono (fun _ k _ => ⟨?_, ?_, ?_⟩)
    fun _ _ elsewhere _ => elsewhere)
  · exact fun change _ f failed _ =>
      Draft.limits_checkColumnChange (fun _ => trivial) change f failed
  · exact fun f failed _ => elsewhere_selectTree live current.id f failed
  · intro tree _ selected
    obtain ⟨root, rooted, selected⟩ := Check.bind_eq_ok.1 selected
    cases selected
    rw [wp_bind]
    refine wp_within.2 ((HangsOn.wp_resetTable wf found rooted).mono (fun _ c hangs => ?_)
      fun _ _ elsewhere _ => elsewhere)
    refine (p.wp_draftEdits_leaving asks hangs).mono_post fun changes d left => ?_
    exact (Context.elsewhere_checkCancelled d.context).mono (fun _ _ _ => left)
      fun _ _ elsewhere _ => elsewhere

end Planner

/-- Whether an element takes the table off its parent. -/
def Element.dropsGroupingKey : Element → Bool
  | dropForeignKey grouping _ => grouping
  | _ => false

/-- Elements can only be sorted if the foreign keys they drop are grouping ones. -/
theorem Route.grouping_of_ofElementsFrom {t : Table} {e e' : Edits} {name : Option String}
    (route : Route.ofElementsFrom t e elements = .ok (.edit e')) :
    .dropForeignKey false name ∉ elements := by
  induction elements generalizing e with
  | nil => exact List.not_mem_nil
  | cons element rest ih =>
    rw [List.mem_cons, not_or]
    cases element with
    | renameTable newName => cases route
    | other text => cases route
    | dropForeignKey grouping name' =>
      obtain ⟨e'', sorted, route⟩ := Check.bind_eq_ok.1 route
      refine ⟨?_, ih route⟩
      rintro ⟨⟩
      cases sorted
    | _ =>
      obtain ⟨e'', _, route⟩ := Check.bind_eq_ok.1 route
      exact ⟨nofun, ih route⟩

/-- If a statement adds no foreign key, all it asks of the parent is to leave it. -/
theorem Edits.parents_ofElements {t : Table}
    (alone : ∀ key, .addForeignKey key ∉ elements)
    (grouping : ∀ name, .dropForeignKey false name ∉ elements) :
    (Edits.ofElements t elements).parents =
      List.replicate (elements.countP Element.dropsGroupingKey) .leave := by
  show elements.filterMap Element.parentEdit? = _
  induction elements with
  | nil => rfl
  | cons element rest ih =>
    have others := ih (fun key inside => alone key (.tail _ inside))
      fun name inside => grouping name (.tail _ inside)
    cases element with
    | addForeignKey key => exact absurd (.head _) (alone key)
    | dropForeignKey isGrouping name =>
      cases isGrouping with
      | false => exact absurd (.head _) (grouping name)
      | true =>
        rw [List.countP_cons_of_pos rfl, List.replicate_succ, ← others]
        rfl
    | _ =>
      rw [List.countP_cons_of_neg Bool.false_ne_true, ← others]
      rfl

theorem Route.parents_eq {t : Table} {e : Edits}
    (route : Route.ofElements t elements = .ok (.edit e))
    (once : elements.countP Element.dropsGroupingKey = 1)
    (alone : ∀ key, .addForeignKey key ∉ elements) : e.parents = [.leave] := by
  have grouping (name : Option String) : .dropForeignKey false name ∉ elements := by
    unfold Route.ofElements at route
    split at route
    · cases route
    · exact Route.grouping_of_ofElementsFrom route
  rw [Route.edits_eq route, Edits.parents_ofElements alone grouping, once]
  rfl

/-- A table is under a parent, and a column that joins it is dropped by the first element that names
it. -/
def LosesParent (live : Catalog) (current : Table) (elements : List Element) : Prop :=
  ∃ i j pair, current.parentJoin = some i ∧ live.joins.get? i = some j ∧ pair ∈ j.columns ∧
    Element.firstNaming? elements pair.child = some (.dropColumn pair.child)

/-- The planning of a statement fails: its elements cannot be sorted, or no plan comes of them. -/
def Planner.Refuses (p : Planner σ) (live : Catalog) (current : Table) (elements : List Element)
    (k : Context) (f : Fault) : Prop :=
  Route.ofElements current elements = .error f ∨ ∃ e k',
    Route.ofElements current elements = .ok (.edit e) ∧
      p.plan live current.id current e k = .error f k'

variable (wf : live.WellFormed) (found : live.tables.get? current.id = some current)

include wf found

theorem keptJoin?_isSome_iff :
    (keptJoin? live current (Edits.ofElements current elements).columnChanges).isSome = true ↔
      ¬ (current.parentJoin = none ∨ LosesParent live current elements) := by
  cases above : current.parentJoin with
  | none => simp [keptJoin?, above]
  | some i =>
    obtain ⟨j, there, below⟩ :=
      (wf.intact.toLinked.hook_iff _ _).1 ((hook_of_get? found).trans above)
    have lost : LosesParent live current elements ↔ ∃ pair ∈ j.columns,
        Element.firstNaming? elements pair.child = some (.dropColumn pair.child) := by
      constructor
      · rintro ⟨_, _, pair, above', there', inside, dropped⟩
        cases above.symm.trans above'
        cases there.symm.trans there'
        exact ⟨pair, inside, dropped⟩
      · rintro ⟨pair, inside, dropped⟩
        exact ⟨i, j, pair, above, there, inside, dropped⟩
    have final (name : String) :
        Change.finalName? (Edits.ofElements current elements).columnChanges name = _ :=
      Element.finalName?_eq_ite
    have kept : keptJoin? live current (Edits.ofElements current elements).columnChanges =
        if j.survives current.id (Change.finalName?
          (Edits.ofElements current elements).columnChanges) then some i else none := by
      rw [keptJoin?, above, Option.filter_some, there, Option.any_some]
    rw [kept, lost]
    simp [Join.survives, below, JoinColumn.name, final]

namespace Planner

/-- A statement that takes a table off its parent is told that there is none only if there is none
or the table loses it with a column. No plan comes of it in either case; a plan that comes of it
leaves the table without a parent. -/
theorem root_or_losing_of_refused (p : Planner σ)
    (once : elements.countP Element.dropsGroupingKey = 1)
    (alone : ∀ key, .addForeignKey key ∉ elements) :
    (∀ k f, p.Refuses live current elements k f → f.code = "ALTER_001" →
      current.parentJoin = none ∨ LosesParent live current elements) ∧
    ∀ e plan k k', Route.ofElements current elements = .ok (.edit e) →
      p.plan live current.id current e k = .ok plan k' →
        ¬ (current.parentJoin = none ∨ LosesParent live current elements) ∧
          plan.staged.catalog.hook current.id = none := by
  have leaving {e : Edits} (route : Route.ofElements current elements = .ok (.edit e))
      (k : Context) := p.wp_plan_leaving wf found (Route.parents_eq route once alone) k
  have kept : (keptJoin? live current (Edits.ofElements current elements).columnChanges).isSome =
      true ↔ ¬ (current.parentJoin = none ∨ LosesParent live current elements) :=
    keptJoin?_isSome_iff wf found
  constructor
  · intro k f refused blamed
    by_contra kept'
    apply Fault.elsewhere_iff_code.1 _ blamed
    obtain unsorted | ⟨e, k', route, failed⟩ := refused
    · exact (Route.refuses_ofElements current elements f unsorted).elsewhere
    · cases Route.edits_eq route
      exact (leaving route k).error failed (kept.2 kept')
  · intro e plan k k' route planned
    cases Route.edits_eq route
    exact ((leaving route k).ok planned).imp_left kept.1

/-- Drops the customer of the orders, and with it what joins them to the customers. -/
def dropsTwice : List Element := [.dropColumn "customer", .dropForeignKey true none]

omit wf found in
theorem refuses_dropsTwice :
    swapping.Refuses shop orders dropsTwice {} (.noGroupingKey "shop.order") := by
  obtain ⟨f, k', failed, rfl⟩ := exists_error_of_wp (show
    WP (swapping.plan shop 2 orders (Edits.ofElements orders dropsTwice)) (fun _ _ => False)
      (fun f _ => f = .noGroupingKey "shop.order") {} by decide +kernel)
  exact .inr ⟨_, k', rfl, failed⟩

omit wf found in
/-- The orders lose their customers with the column, and there is nothing left to drop. -/
theorem root_or_losing_of_refused_shop : orders.parentJoin = some 3 ∧
    LosesParent shop orders dropsTwice ∧ ∀ e plan k k',
      Route.ofElements orders dropsTwice = .ok (.edit e) →
        swapping.plan shop 2 orders e k ≠ .ok plan k' := by
  have once : dropsTwice.countP Element.dropsGroupingKey = 1 := by decide
  obtain ⟨blamed, left⟩ := root_or_losing_of_refused shop_wellFormed get?_shop_orders swapping
    once fun key => by simp [dropsTwice]
  have loses := blamed {} _ refuses_dropsTwice rfl
  exact ⟨rfl, loses.resolve_left nofun, fun e plan k k' route planned =>
    (left e plan k k' route planned).1 loses⟩

omit wf found in
/-- A statement that drops the one grouping foreign key, adds none, and names no other table is
told that there is none, though the table has a parent. -/
theorem not_root_of_refused : ∃ f,
    shop.WellFormed ∧ shop.tables.get? orders.id = some orders ∧
    dropsTwice.countP Element.dropsGroupingKey = 1 ∧
    (∀ key, .addForeignKey key ∉ dropsTwice) ∧ (∀ name, .renameTable name ∉ dropsTwice) ∧
    (∀ text, .other text ∉ dropsTwice) ∧
    swapping.Refuses shop orders dropsTwice {} f ∧ f.code = "ALTER_001" ∧
    orders.parentJoin ≠ none :=
  ⟨_, shop_wellFormed, get?_shop_orders, by decide, fun _ => by simp [dropsTwice],
    fun _ => by simp [dropsTwice], fun _ => by simp [dropsTwice], refuses_dropsTwice, rfl, nofun⟩

end Planner

end GroupedTables
