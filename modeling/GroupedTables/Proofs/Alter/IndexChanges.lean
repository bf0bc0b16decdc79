import GroupedTables.Proofs.Alter.Costs

/-!
# What becomes of each index

An index that no element drops comes back with the key columns that are still there, each under the
name its column has now, or not at all if it lost them all. The list of changes names the indexes
that were dropped, then those that lost columns, then those of new constraints, and no others.
-/

namespace GroupedTables

open GroupedTables.Action Catalog

variable {current t : Table} {elements : List Element} {e e' : Edits} {dropped : List String}
  {f : String → Option String} {index : Index} {rest done : List Index} {changes : List Change}
  {columnChanges : List Change} {c : Catalog} {name : String}

namespace Index

/-- An index with the key columns that are still there, under the names they have now. -/
def followed (f : String → Option String) (i : Index) : Index :=
  { i with columns := i.columns.filterMap fun c =>
      (f c.column).map fun column => { c with column } }

def remains? (f : String → Option String) (i : Index) : Option Index :=
  if (i.followed f).columns = [] then none else some (i.followed f)

/-- What is to be told of an index that lost columns: that it is gone with all of them, or is
another one. -/
def loss? (f : String → Option String) (i : Index) : Option Change :=
  if (i.followed f).columns = [] then some (.drop i.name)
  else if (i.followed f).columns.length < i.columns.length then some (.modify i.name i.name)
  else none

/-- The indexes that are not dropped by their names. -/
def undropped (dropped : List String) (indexes : List Index) : List Index :=
  indexes.filter fun i => i.name ∉ dropped

theorem name_of_remains? {i i' : Index} (left : i.remains? f = some i') : i'.name = i.name := by
  unfold remains? at left
  split at left
  · cases left
  · cases left
    rfl

theorem oldName?_of_loss? {i : Index} {change : Change} (lost : i.loss? f = some change) :
    change.oldName? = some i.name := by
  unfold loss? at lost
  split at lost
  · cases lost
    rfl
  · split at lost
    · cases lost
      rfl
    · cases lost

end Index

/-- The name of the index that a constraint to be dropped stands for. -/
def ConstraintDrop.indexName : ConstraintDrop → String
  | primaryKey => Index.primaryName
  | unique name | named name | check name => name

def Element.droppedIndex? : Element → Option String
  | .dropConstraint constraint => some constraint.indexName
  | _ => none

/-- An index is the one of a constraint. If the constraint has a name, it is the name of the
index. -/
def KeyEdit.Makes : KeyEdit → Index → Prop
  | .primary columns, i => i = .primaryOf columns
  | .unique asked columns, i =>
    i = .uniqueOf i.name columns ∧ ∀ name, asked = some name → i.name = name

theorem Route.exists_of_mem {element : Element}
    (route : ofElementsFrom t e elements = .ok (.edit e')) (inside : element ∈ elements) :
    ∃ e₁ e₂ : Edits, e₁.withElement t element = .ok e₂ := by
  induction elements generalizing e with
  | nil => cases inside
  | cons first rest ih =>
    cases first with
    | renameTable => cases route
    | other => cases route
    | _ =>
      obtain ⟨e₂, sorted, route⟩ := Check.bind_eq_ok.1 route
      obtain rfl | inside := List.mem_cons.1 inside
      · exact ⟨e, e₂, sorted⟩
      · exact ih route inside

/-- Every element that drops a constraint is listed with the name of its index. -/
theorem Route.indexChanges_eq (route : ofElements current elements = .ok (.edit e)) :
    e.indexChanges = (elements.filterMap Element.droppedIndex?).map .drop := by
  rw [edits_eq route, Edits.ofElements, List.map_filterMap]
  refine List.filterMap_congr fun element inside => ?_
  unfold ofElements at route
  split at route
  · cases route
  obtain ⟨e₁, e₂, sorted⟩ := exists_of_mem route inside
  cases element with
  | dropConstraint drop =>
    cases found : Edits.droppedKey current drop with
    | error f =>
      rw [Edits.withElement, found] at sorted
      cases sorted
    | ok name =>
      rw [Element.indexChange?, found]
      cases drop with
      | primaryKey => cases found; rfl
      | unique asked | named asked =>
        simp only [Edits.droppedKey] at found
        split at found
        · cases found
        · cases found
          rfl
      | check => cases found
  | _ => rfl

theorem Change.ofOldName?_drops :
    ofOldName? (dropped.map .drop) name = if name ∈ dropped then some (.drop name) else none := by
  induction dropped with
  | nil => rfl
  | cons first rest ih =>
    rw [List.map_cons, ofOldName?, List.find?_cons, ← ofOldName?, ih]
    by_cases same : first = name
    · simp [Change.oldName?, same]
    · simp [Change.oldName?, beq_eq_false_iff_ne.2 same, Ne.symm same]

/-- Some of the indexes were gone through: what remains of them is there, and the list tells of
those that were dropped or lost columns. -/
def PutBack (current : Table) (f : String → Option String) (dropped : List String)
    (rest : List Index) (changes : List Change) (c : Catalog) : Prop :=
  ∃ done t, current.indexes = done ++ rest ∧ c.tables.get? current.id = some t ∧
    t.indexes = (Index.undropped dropped done).filterMap (Index.remains? f) ∧
    changes = dropped.map .drop ++ (Index.undropped dropped done).filterMap (Index.loss? f)

namespace PutBack

theorem start (bare : Unindexed current c) :
    PutBack current f dropped current.indexes (dropped.map .drop) c := by
  obtain ⟨t, there, none⟩ := Option.map_eq_some_iff.1 bare
  exact ⟨[], t, rfl, there, none, (List.append_nil _).symm⟩

theorem ofOldName?_eq (named : (current.indexes.map (·.name)).Nodup)
    (cut : current.indexes = done ++ index :: rest) :
    Change.ofOldName? (dropped.map .drop ++
      (Index.undropped dropped done).filterMap (Index.loss? f)) index.name =
        if index.name ∈ dropped then some (.drop index.name) else none := by
  have unlisted : Change.ofOldName?
      ((Index.undropped dropped done).filterMap (Index.loss? f)) index.name = none := by
    refine List.find?_eq_none.2 fun change listed same => ?_
    obtain ⟨i, inside, lost⟩ := List.mem_filterMap.1 listed
    rw [Index.oldName?_of_loss? lost, beq_iff_eq, Option.some.injEq] at same
    rw [cut, List.map_append, List.map_cons] at named
    refine List.disjoint_of_nodup_append named ?_ (.head _)
    exact List.mem_map.2 ⟨i, List.mem_of_mem_filter inside, same⟩
  rw [Change.ofOldName?_append, unlisted, Option.or_none, Change.ofOldName?_drops]

/-- The next index was gone through. -/
theorem next (cut : current.indexes = done ++ index :: rest) (kept : index.name ∉ dropped)
    (there : c.tables.get? current.id = some t)
    (indexes : t.indexes = (Index.undropped dropped done).filterMap (Index.remains? f) ++
      (index.remains? f).toList)
    (listed : changes = dropped.map .drop ++
      (Index.undropped dropped done).filterMap (Index.loss? f) ++ (index.loss? f).toList) :
    PutBack current f dropped rest changes c := by
  have more : Index.undropped dropped (done ++ [index]) =
      Index.undropped dropped done ++ [index] := by
    simp [Index.undropped, kept]
  refine ⟨done ++ [index], t, by rw [cut, List.append_assoc]; rfl, there, ?_, ?_⟩
  · rw [more, List.filterMap_append, indexes, List.append_cancel_left_eq]
    cases left : index.remains? f <;> simp [left]
  · rw [more, List.filterMap_append, listed, List.append_assoc]
    cases lost : index.loss? f <;> simp [lost]

/-- An index with a name of its own is put back as far as it remains. -/
theorem wp_keepIndex (named : (current.indexes.map (·.name)).Nodup)
    (h : PutBack current (Change.finalName? columnChanges) dropped (index :: rest) changes c) :
    WP (Draft.keepIndex current.id columnChanges changes index)
      (PutBack current (Change.finalName? columnChanges) dropped rest) (fun _ _ => True) c := by
  obtain ⟨done, t, cut, there, indexes, rfl⟩ := h
  have short : (Draft.keptColumns columnChanges index).length ≤ index.columns.length :=
    List.length_filterMap_le ..
  unfold Draft.keepIndex
  simp only [ofOldName?_eq named cut, wp_ite, wp_bind]
  by_cases out : index.name ∈ dropped
  · have same : Index.undropped dropped (done ++ [index]) = Index.undropped dropped done := by
      simp [Index.undropped, out]
    rw [if_pos out]
    refine ⟨fun _ => ⟨done ++ [index], t, ?_, there, same ▸ indexes, same ▸ rfl⟩,
      fun kept => absurd rfl kept⟩
    rw [cut, List.append_assoc]
    rfl
  rw [if_neg out]
  refine ⟨fun kept => absurd kept Bool.false_ne_true,
    fun _ => ⟨fun empty => ?_, fun filled => ?_⟩⟩
  · have empty : Draft.keptColumns columnChanges index = [] := List.isEmpty_iff.1 empty
    have gone : index.remains? (Change.finalName? columnChanges) = none := if_pos empty
    have lost : index.loss? (Change.finalName? columnChanges) = some (.drop index.name) :=
      if_pos empty
    exact next cut out there (by rw [indexes, gone]; simp) (by rw [lost]; rfl)
  · have filled : Draft.keptColumns columnChanges index ≠ [] :=
      fun empty => filled (List.isEmpty_iff.2 empty)
    have left : index.remains? (Change.finalName? columnChanges) =
        some (index.followed (Change.finalName? columnChanges)) := if_neg filled
    have cheaper : index.loss? (Change.finalName? columnChanges) =
        if (Draft.keptColumns columnChanges index).length < index.columns.length then
          some (.modify index.name index.name) else none := if_neg filled
    apply wp_addIndex_of there (fun _ => trivial) fun _ _ => trivial
    intro _ _
    have back : t.indexes ++ [index.followed (Change.finalName? columnChanges)] =
        (Index.undropped dropped done).filterMap (Index.remains? (Change.finalName? columnChanges))
          ++ (index.remains? (Change.finalName? columnChanges)).toList := by
      rw [indexes, left]
      rfl
    rw [wp_ite]
    constructor
    · intro lost
      have fewer : (Draft.keptColumns columnChanges index).length < index.columns.length :=
        Nat.lt_of_le_of_ne short (by simpa using lost)
      exact next cut out (get?_editing_self there) back (by rw [cheaper, if_pos fewer]; rfl)
    · intro whole
      have same : (Draft.keptColumns columnChanges index).length = index.columns.length := by
        simpa using whole
      exact next cut out (get?_editing_self there) back (by rw [cheaper, same]; simp)

/-- All indexes were gone through. -/
theorem finish (h : PutBack current f dropped [] changes c) :
    ∃ t, c.tables.get? current.id = some t ∧
      t.indexes = (Index.undropped dropped current.indexes).filterMap (Index.remains? f) ∧
      changes = dropped.map .drop ++
        (Index.undropped dropped current.indexes).filterMap (Index.loss? f) := by
  obtain ⟨done, t, cut, there, indexes, listed⟩ := h
  rw [List.append_nil] at cut
  exact ⟨t, there, cut ▸ indexes, cut ▸ listed⟩

end PutBack

/-- The indexes of some constraints were added behind those there were, and listed. -/
def Constrained (current : Table) (before : List Index) (listed : List Change)
    (keys rest : List KeyEdit) (changes : List Change) (c : Catalog) : Prop :=
  ∃ made added t, keys = made ++ rest ∧ List.Forall₂ KeyEdit.Makes made added ∧
    c.tables.get? current.id = some t ∧ t.indexes = before ++ added ∧
    changes = listed ++ added.map fun i => .add i.name

namespace Constrained

variable {before : List Index} {listed : List Change} {keys rest : List KeyEdit} {key : KeyEdit}

theorem start (there : c.tables.get? current.id = some t) (indexes : t.indexes = before) :
    Constrained current before listed keys keys listed c :=
  ⟨[], [], t, rfl, .nil, there, by rw [indexes, List.append_nil], (List.append_nil _).symm⟩

theorem next {made : List KeyEdit} {added : List Index} (cut : keys = made ++ key :: rest)
    (makes : List.Forall₂ KeyEdit.Makes made added) (there : c.tables.get? current.id = some t)
    (indexes : t.indexes = before ++ added) (made' : key.Makes index) :
    Constrained current before listed keys rest
      (listed ++ (added.map fun i => .add i.name) ++ [.add index.name])
      (c.editing current.id fun t => { t with indexes := t.indexes ++ [index] }) := by
  refine ⟨made ++ [key], added ++ [index], _, by rw [cut, List.append_assoc]; rfl,
    List.rel_append makes (.cons made' .nil), get?_editing_self there, ?_, ?_⟩
  · rw [indexes, List.append_assoc]
  · rw [List.map_append, List.append_assoc]
    rfl

theorem wp_addKey (h : Constrained current before listed keys (key :: rest) changes c)
    (names : IndexNames) :
    WP (Draft.addKey current.id names changes key)
      (fun added => Constrained current before listed keys rest added.2) (fun _ _ => True) c := by
  obtain ⟨made, added, t, cut, makes, there, indexes, rfl⟩ := h
  cases key with
  | primary columns =>
    refine (wp_bind _ _).2 (wp_addIndex_of there (fun _ => trivial) (fun _ _ => trivial) ?_)
    exact fun _ _ => next cut makes there indexes rfl
  | unique asked columns =>
    refine (wp_bind _ _).2 (wp_addIndex_of there (fun _ => trivial) (fun _ _ => trivial) ?_)
    refine fun _ _ => next cut makes there indexes ⟨rfl, ?_⟩
    rintro name rfl
    rfl

theorem ignoresPlaces {live : Catalog} :
    IgnoresPlaces live (Constrained current before listed keys rest changes) where
  moved := by
    rintro c c' moved ⟨made, added, t, cut, makes, there, indexes, listed⟩
    obtain ⟨u, there', same⟩ := exists_of_bodies moved.bodies there
    have same : u.body.indexes = t.body.indexes := congrArg Table.indexes same
    exact ⟨made, added, u, cut, makes, there', same.trans indexes, listed⟩
  copied := by
    rintro c k t _ free ⟨made, added, u, cut, makes, there, indexes, listed⟩
    exact ⟨made, added, u, cut, makes, get?_copied_of_get? free there, indexes, listed⟩

end Constrained

namespace Planner

variable {σ : Type} {p : Planner σ} {live : Catalog} {k k' : Context} {plan : Plan}
  (wf : live.WellFormed) (found : live.tables.get? current.id = some current)

include wf found

theorem wp_plan_indexes (named : (current.indexes.map (·.name)).Nodup) (e : Edits)
    (drops : e.indexChanges = dropped.map .drop) :
    WP (p.plan live current.id current e)
      (fun plan _ => Constrained current
        ((Index.undropped dropped current.indexes).filterMap
          (Index.remains? (Change.finalName? e.columnChanges)))
        (dropped.map .drop ++ (Index.undropped dropped current.indexes).filterMap
          (Index.loss? (Change.finalName? e.columnChanges)))
        e.keys [] plan.indexChanges plan.staged.catalog) (fun _ _ => True) k := by
  refine p.wp_plan_drafted fun test k passes _ => ?_
  rw [wp_bind]
  refine wp_within.2 ((Drafts.wp_resetTable wf found passes).mono_post ?_)
  rintro _ c ⟨bare, _⟩
  refine p.wp_draftEdits_of (fun _ d => Unindexed current d.catalog)
    (fun rest changes d => PutBack current (Change.finalName? e.columnChanges) dropped rest
      changes d.catalog)
    (fun rest changes d => Constrained current _ _ e.keys rest changes d.catalog) bare
    (fun edit _ d bare => Unindexed.ignoresColumns.preserves_applyColumnEdit edit d bare) ?_
    (fun index rest changes d h => wp_within.2 (PutBack.wp_keepIndex named h)) ?_
    (fun key rest names changes d h => wp_within.2 (Constrained.wp_addKey h names)) ?_
    fun _ _ h => ⟨fun _ _ => trivial, fun _ => h⟩
  · intro d bare
    refine (Draft.preserves_onContext Context.checkCancelled d bare).mono_post fun _ d bare => ?_
    exact ⟨fun _ _ _ _ => trivial, fun _ => drops ▸ PutBack.start bare⟩
  · intro changes d h
    obtain ⟨t, there, indexes, rfl⟩ := h.finish
    exact Constrained.start there indexes
  · intro parent _ changes d h
    exact Draft.preserves_edit (Constrained.ignoresPlaces.preserves_applyParentEdit wf.numbered
      current p.schema parent) d h

/-- What becomes of the indexes of a table whose indexes have names of their own, under elements
that name no column of it twice. An index that no element drops is there with the key columns that
remain, under their names now, unless none remains; behind these stand the indexes of new
constraints, and no other index is there under the name of one that is gone. The list of changes
names the dropped constraints, in the order of the indexes those that lost all or some of their key
columns, and the new constraints. -/
theorem indexes_of_plan (once : Element.NamedOnce current elements)
    (named : (current.indexes.map (·.name)).Nodup)
    (route : Route.ofElements current elements = .ok (.edit e))
    (planned : p.plan live current.id current e k = .ok plan k') :
    ∃ d added, plan.staged.definition = .ok d ∧
      d.indexes = (Index.undropped (elements.filterMap Element.droppedIndex?)
        current.indexes).filterMap (Index.remains? (Element.laterName? elements)) ++ added ∧
      List.Forall₂ KeyEdit.Makes (elements.filterMap Element.keyEdit?) added ∧
      (∀ gone ∈ current.indexes, (gone.name ∈ elements.filterMap Element.droppedIndex? ∨
          gone.remains? (Element.laterName? elements) = none) →
        ∀ i ∈ d.indexes, i.name = gone.name → i ∈ added) ∧
      plan.indexChanges = (elements.filterMap Element.droppedIndex?).map .drop ++
        (Index.undropped (elements.filterMap Element.droppedIndex?)
          current.indexes).filterMap (Index.loss? (Element.laterName? elements)) ++
        added.map fun i => .add i.name := by
  obtain ⟨fits, same, _⟩ := (p.wp_plan wf found e k).ok planned
  have drops := Route.indexChanges_eq route
  have accounts := (p.wp_plan_accounts wf found e k fun change listed => by
    obtain ⟨name, _, rfl⟩ := List.mem_map.1 (drops ▸ listed)
    rfl).ok planned
  obtain ⟨made, added, d, cut, makes, there, indexes, listed⟩ :=
    (wp_plan_indexes (p := p) (k := k) wf found named e drops).ok planned
  have changes : e.columnChanges = elements.filterMap Element.columnChange? := by
    rw [Route.edits_eq route]
    rfl
  have keys : e.keys = elements.filterMap Element.keyEdit? := by
    rw [Route.edits_eq route]
    rfl
  have later : Change.finalName? e.columnChanges = Element.laterName? elements := by
    funext name
    rw [changes]
    exact Element.finalName?_eq_laterName? (once.consistent (changes ▸ same ▸ accounts.named))
  rw [later] at indexes listed
  rw [List.append_nil] at cut
  refine ⟨d, added, fits.definition_eq there, indexes, (cut.symm.trans keys) ▸ makes,
    fun gone inside lost i listed same => ?_, listed⟩
  rw [indexes] at listed
  refine (List.mem_append.1 listed).resolve_left fun remains => ?_
  obtain ⟨old, kept, left⟩ := List.mem_filterMap.1 remains
  obtain ⟨inside', undropped⟩ := List.mem_filter.1 kept
  have alike : old = gone :=
    List.inj_on_of_nodup_map named inside' inside ((Index.name_of_remains? left).symm.trans same)
  subst alike
  obtain dropped | none := lost
  · exact absurd dropped (of_decide_eq_true undropped)
  · rw [none] at left
    cases left

/-- Takes the number off the orders and makes the client their key. -/
def keyedByClient : List Element :=
  [.dropColumn "number", .renameColumn "customer" "client",
    .addConstraint (.primaryKey none ["client"])]

omit wf found in
/-- The key of the orders is gone with its column, and the new key has its name. -/
theorem indexes_of_plan_shop : ∃ e plan k d,
    Route.ofElements orders keyedByClient = .ok (.edit e) ∧
    swapping.plan shop 2 orders e {} = .ok plan k ∧ plan.staged.definition = .ok d ∧
    d.indexes = [.primaryOf ["client"]] ∧
    plan.indexChanges = [.drop "PRIMARY", .add "PRIMARY"] := by
  have once : Element.NamedOnce orders keyedByClient := by
    unfold Element.NamedOnce
    decide
  have route : Route.ofElements orders keyedByClient =
      .ok (.edit (Edits.ofElements orders keyedByClient)) := rfl
  obtain ⟨plan, k, planned, _⟩ := exists_ok_of_wp (show
    WP (swapping.plan shop 2 orders (Edits.ofElements orders keyedByClient))
      (fun _ _ => True) (fun _ _ => False) {} by decide +kernel)
  obtain ⟨d, added, defined, indexes, makes, _, listed⟩ :=
    indexes_of_plan shop_wellFormed get?_shop_orders once (by decide +kernel) route planned
  cases makes with
  | cons first rest =>
    cases rest
    cases first
    exact ⟨_, plan, k, d, route, planned, defined, indexes, listed⟩

/-- A table with two indexes of one name on different columns. -/
def indexedAlike : Table where
  id := 1
  name := ⟨"shop", "item"⟩
  columns := [{ name := "label", descriptor := .ofType .bigInt },
    { name := "price", position := 1, descriptor := .ofType .bigInt }]
  indexes := [.ofColumns "lookup" ["label"], .ofColumns "lookup" ["price"]]

omit wf found in
/-- Validation does not look at the names of indexes. When the first index of a name is gone with
its column, the second is not put back either, though no element drops it and its column is there;
and only the first is listed. -/
theorem not_indexes_of_plan_of_indexedAlike : ∃ live plan k d,
    live.WellFormed ∧ live.tables.get? indexedAlike.id = some indexedAlike ∧
    (∀ index ∈ indexedAlike.indexes, index.columns ≠ []) ∧
    Element.NamedOnce indexedAlike [.dropColumn "label"] ∧
    Route.ofElements indexedAlike [.dropColumn "label"] =
      .ok (.edit { columnChanges := [.drop "label"] }) ∧
    swapping.plan live indexedAlike.id indexedAlike { columnChanges := [.drop "label"] } {} =
      .ok plan k ∧
    Level.classify live indexedAlike.id plan.staged plan.columnChanges plan.indexChanges =
      .ok .table ∧
    plan.staged.definition = .ok d ∧
    (Index.ofColumns "lookup" ["price"]).remains? (Element.laterName? [.dropColumn "label"]) =
      some (.ofColumns "lookup" ["price"]) ∧
    d.indexes = [] ∧ plan.indexChanges = [.drop "lookup"] := by
  obtain ⟨plan, k, planned, classified, bare, listed⟩ := exists_ok_of_wp (show
    WP (swapping.plan { tables := .ofList [(1, indexedAlike)], nextId := 1 } indexedAlike.id
        indexedAlike { columnChanges := [.drop "label"] })
      (fun plan _ => Level.classify { tables := .ofList [(1, indexedAlike)], nextId := 1 }
          indexedAlike.id plan.staged plan.columnChanges plan.indexChanges = .ok .table ∧
        plan.staged.definition.toOption.map Table.indexes = some [] ∧
        plan.indexChanges = [.drop "lookup"])
      (fun _ _ => False) {} by decide +kernel)
  obtain ⟨d, defined, indexes⟩ := Staged.exists_definition bare
  exact ⟨_, plan, k, d, by decide +kernel, by decide +kernel, by decide +kernel,
    by unfold Element.NamedOnce; decide, rfl, planned, classified, defined, by decide +kernel,
    indexes, listed⟩

end Planner

end GroupedTables
