import GroupedTables.Proofs.Alter.Descent
import GroupedTables.Proofs.Alter.Tally

/-!
# What becomes of each column

Where the elements of a statement name no column twice, but to modify it again and again, each
column can be followed by itself. The last word on nullability, type and increment counts, and so
does the last one on where values come from: from a default, or from a new sequence.
-/

namespace GroupedTables

open GroupedTables.Action Catalog

variable {live c : Catalog} {current d : Table} {table : TableName} {elements : List Element}
  {ms : List ColumnModification} {sketch : Sketch} {a : Column}

namespace ColumnModification

def nullable? : ColumnModification → Option Bool
  | null => some true
  | notNull => some false
  | _ => none

def descriptor? : ColumnModification → Option TypeDescriptor
  | type descriptor => some descriptor
  | _ => none

def increment? : ColumnModification → Option Int
  | identity (.setIncrement increment) => some increment
  | _ => none

/-- Whether a modification says where values come from. -/
def isSource : ColumnModification → Bool
  | default _ => true
  | identity (.create _) => true
  | _ => false

end ColumnModification

theorem Supply.counting_counting {supply : Supply} {m n : Int} :
    (supply.counting live m).counting live n = supply.counting live n := by
  cases supply with
  | live id =>
    cases there : live.sequences.get? id with
    | none => simp only [counting, there]
    | some q => simp only [counting, there]
  | _ => rfl

namespace Sketch

/-- Of what modifications say of one thing the last word counts. -/
theorem foldl_modified_eq_getLastD {β : Type} {field : Sketch → β}
    {word : ColumnModification → Option β}
    (step : ∀ s m, field (modified live table s m) = (word m).getD (field s)) :
    field (ms.foldl (modified live table) sketch) =
      (ms.filterMap word).getLastD (field sketch) := by
  induction ms generalizing sketch with
  | nil => rfl
  | cons m rest ih =>
    rw [List.foldl_cons, ih, step]
    cases said : word m with
    | none => rw [List.filterMap_cons_none said, Option.getD_none]
    | some b => rw [List.filterMap_cons_some said, List.getLastD_cons, Option.getD_some]

theorem nullable_foldl_modified : (ms.foldl (modified live table) sketch).nullable =
    (ms.filterMap ColumnModification.nullable?).getLastD sketch.nullable := by
  refine foldl_modified_eq_getLastD fun s m => ?_
  cases m with
  | identity change => cases change <;> rfl
  | _ => rfl

theorem descriptor_foldl_modified : (ms.foldl (modified live table) sketch).descriptor =
    (ms.filterMap ColumnModification.descriptor?).getLastD sketch.descriptor := by
  refine foldl_modified_eq_getLastD fun s m => ?_
  cases m with
  | identity change => cases change <;> rfl
  | _ => rfl

/-- A default that stays follows the types of its column. -/
def refitted (ms : List ColumnModification) (default : Option ColumnDefault) :
    Option ColumnDefault :=
  (ms.filterMap ColumnModification.descriptor?).foldl (fun default d =>
    default.map (fittedDefault d)) default

theorem refitted_none : refitted ms none = none := by
  unfold refitted
  induction ms.filterMap ColumnModification.descriptor? with
  | nil => rfl
  | cons d rest ih => exact ih

/-- What a column draws from, if nothing else is said than how it counts. -/
def recounted (live : Catalog) (ms : List ColumnModification) (supply : Supply) : Supply :=
  (ms.filterMap ColumnModification.increment?).getLast?.elim supply (supply.counting live)

/-- Where nothing is said of the source of values, a column keeps it. -/
theorem source_foldl_modified (live : Catalog) (table : TableName) (sketch : Sketch)
    (unsaid : ∀ m ∈ ms, m.isSource = false) :
    (ms.foldl (modified live table) sketch).default = refitted ms sketch.default ∧
      (ms.foldl (modified live table) sketch).supply = recounted live ms sketch.supply := by
  induction ms generalizing sketch with
  | nil => exact ⟨rfl, rfl⟩
  | cons m rest ih =>
    obtain ⟨first, others⟩ := List.forall_mem_cons.1 unsaid
    obtain ⟨default, supply⟩ := ih (sketch.modified live table m) others
    rw [List.foldl_cons, default, supply]
    cases m with
    | default => cases first
    | null => exact ⟨rfl, rfl⟩
    | notNull => exact ⟨rfl, rfl⟩
    | type => exact ⟨rfl, rfl⟩
    | identity change =>
      cases change with
      | create => cases first
      | restart => exact ⟨rfl, rfl⟩
      | setIncrement n =>
        refine ⟨rfl, ?_⟩
        simp only [recounted, List.filterMap_cons, ColumnModification.increment?,
          List.getLast?_cons]
        cases (rest.filterMap ColumnModification.increment?).getLast? with
        | none => rfl
        | some n' => exact Supply.counting_counting

theorem recounted_nothing : recounted live ms .nothing = .nothing := by
  unfold recounted
  cases (ms.filterMap ColumnModification.increment?).getLast? <;> rfl

theorem recounted_created {q : Sequence} : recounted live ms (.created q) =
    .created { q with increment :=
      (ms.filterMap ColumnModification.increment?).getLastD q.increment } := by
  rw [recounted, List.getLastD_eq_getLast?]
  cases (ms.filterMap ColumnModification.increment?).getLast? <;> rfl

end Sketch

/-- Where something is said of the source of values, something is said of it last. -/
theorem ColumnModification.exists_last_source (said : ∃ m ∈ ms, m.isSource = true) :
    ∃ before m after, ms = before ++ m :: after ∧ m.isSource = true ∧
      ∀ m ∈ after, m.isSource = false := by
  induction ms with
  | nil =>
    obtain ⟨_, inside, _⟩ := said
    cases inside
  | cons first rest ih =>
    by_cases later : ∃ m ∈ rest, m.isSource = true
    · obtain ⟨before, m, after, rfl, source, unsaid⟩ := ih later
      exact ⟨first :: before, m, after, rfl, source, unsaid⟩
    · have unsaid : ∀ m ∈ rest, m.isSource = false := by simpa using later
      obtain ⟨m, inside, source⟩ := said
      obtain rfl | inside := List.mem_cons.1 inside
      · exact ⟨[], m, rest, rfl, source, unsaid⟩
      · exact absurd ⟨m, inside, source⟩ later

/-- What modifications make of a column, but for its name. -/
structure Modified (live : Catalog) (table : TableName) (ms : List ColumnModification)
    (sequences : OrderedMap Sequence) (a column : Column) : Prop where
  untouched : ms = [] → column.descriptor = a.descriptor ∧ column.nullable = a.nullable ∧
    column.default = a.default ∧ column.identity = a.identity
  nullable : column.nullable = (ms.filterMap ColumnModification.nullable?).getLastD a.nullable
  descriptor :
    column.descriptor = (ms.filterMap ColumnModification.descriptor?).getLastD a.descriptor
  /-- The last word on the source is that it is generated. It may count otherwise later on. -/
  created : ∀ before i after, ms = before ++ .identity (.create i) :: after →
    (∀ m ∈ after, m.isSource = false) → column.default = none ∧
      ∃ s, column.identity = some s ∧ live.nextId < s ∧ sequences.get? s = some
        { Sequence.ofStart table.schema (generatedName table column.name) i.start
            ((after.filterMap ColumnModification.increment?).getLastD i.increment) with id := s }
  /-- The last word on the source is a default. It may get another type later on. -/
  defaulted : ∀ before value after, ms = before ++ .default value :: after →
    (∀ m ∈ after, m.isSource = false) →
      column.identity = none ∧ column.default = Sketch.refitted after value
  /-- Nothing is said of the source. -/
  kept : (∀ m ∈ ms, m.isSource = false) → column.default = Sketch.refitted ms a.default ∧
    (ms.filterMap ColumnModification.increment? = [] → column.identity = a.identity)
  /-- Nothing is said of the source than how it counts. -/
  counted : (∀ m ∈ ms, m.isSource = false) →
    ∀ n ∈ (ms.filterMap ColumnModification.increment?).getLast?, ∀ s ∈ a.identity, ∀ q,
      live.sequences.get? s = some q → ∃ s', column.identity = some s' ∧ live.nextId < s' ∧
        sequences.get? s' = some { q with id := s', increment := n }

/-- A column that the modifications made generated at some time has no default besides. -/
theorem Modified.apart {sequences : OrderedMap Sequence} {column : Column} {i : Identity}
    (h : Modified live table ms sequences a column) (said : .identity (.create i) ∈ ms) :
    column.identity = none ∨ column.default = none := by
  obtain ⟨before, m, after, last, source, unsaid⟩ :=
    ColumnModification.exists_last_source ⟨_, said, rfl⟩
  cases m with
  | default value => exact .inl (h.defaulted before value after last unsaid).1
  | identity change =>
    cases change with
    | create i => exact .inr (h.created before i after last unsaid).1
    | _ => cases source
  | _ => cases source

namespace Sketch

variable {sequences : OrderedMap Sequence} {name : String} {column : Column}

/-- What a column draws from is what it drew from, if it is to. -/
theorem identity_of_meets (h : (a.identity.elim .nothing .live : Supply).Meets live sequences
    column.identity) : column.identity = a.identity := by
  cases generated : a.identity with
  | none => simpa [generated, Supply.Meets] using h
  | some s =>
    rw [generated] at h
    exact h.1

/-- The last word on the source leaves what is said before it behind. -/
theorem foldl_modified_of_last (live : Catalog) (table : TableName) (sketch : Sketch)
    (before : List ColumnModification) (m : ColumnModification) {after : List ColumnModification}
    (unsaid : ∀ m ∈ after, m.isSource = false) :
    let s := (before.foldl (modified live table) sketch).modified live table m
    ((before ++ m :: after).foldl (modified live table) sketch).default = refitted after s.default ∧
      ((before ++ m :: after).foldl (modified live table) sketch).supply =
        recounted live after s.supply := by
  rw [List.foldl_append, List.foldl_cons]
  exact source_foldl_modified _ _ _ unsaid

theorem Fits.modified
    (h : (ms.foldl (modified live table) (ofColumn a name)).Fits live sequences column) :
    Modified live table ms sequences a column where
  untouched := by
    rintro rfl
    exact ⟨h.descriptor, h.nullable, h.default, identity_of_meets h.supply⟩
  nullable := h.nullable.trans nullable_foldl_modified
  descriptor := h.descriptor.trans descriptor_foldl_modified
  created := by
    rintro before i after rfl unsaid
    obtain ⟨default, supply⟩ := foldl_modified_of_last live table (ofColumn a name) before
      (.identity (.create i)) unsaid
    have named : column.name = name := h.name.trans name_foldl_modified
    have meets := h.supply
    simp only [supply, Sketch.modified, Supply.ofIdentity, recounted_created, name_foldl_modified]
      at meets
    obtain ⟨s, drawn, above, there⟩ := meets
    refine ⟨(h.default.trans default).trans refitted_none, s, drawn, above, ?_⟩
    rw [there, named]
    rfl
  defaulted := by
    rintro before value after rfl unsaid
    obtain ⟨default, supply⟩ := foldl_modified_of_last live table (ofColumn a name) before
      (.default value) unsaid
    refine ⟨?_, h.default.trans default⟩
    have meets := h.supply
    rwa [supply, Sketch.modified, recounted_nothing] at meets
  kept := by
    intro unsaid
    obtain ⟨default, supply⟩ := source_foldl_modified live table (ofColumn a name) unsaid
    refine ⟨h.default.trans default, fun uncounted => ?_⟩
    have meets := h.supply
    rw [supply, recounted, uncounted] at meets
    exact identity_of_meets meets
  counted := by
    intro unsaid n last s generated q there
    obtain ⟨_, supply⟩ := source_foldl_modified live table (ofColumn a name) unsaid
    have meets := h.supply
    rw [supply, recounted, Option.mem_def.1 last, ofColumn, Option.mem_def.1 generated] at meets
    simp only [Option.elim_some, Supply.counting, there] at meets
    exact meets

end Sketch

namespace Element

def modification? (name : String) : Element → Option ColumnModification
  | modifyColumn asked m => if asked = name then some m else none
  | _ => none

/-- The modifications of a column, in the order of the statement. -/
def modifications (elements : List Element) (name : String) : List ColumnModification :=
  elements.filterMap (modification? name)

def definition? : Element → Option ColumnDefinition
  | addColumn definition => some definition
  | _ => none

variable {name : String} {m : ColumnModification}

theorem mem_modifications : m ∈ modifications elements name ↔ .modifyColumn name m ∈ elements := by
  have modifies (element : Element) :
      element.modification? name = some m ↔ element = .modifyColumn name m := by
    cases element <;> simp [modification?]
  simp [modifications, modifies]

theorem modifications_eq_nil (unmodified : ∀ m, .modifyColumn name m ∉ elements) :
    modifications elements name = [] :=
  List.eq_nil_iff_forall_not_mem.2 fun m inside => unmodified m (mem_modifications.1 inside)

theorem filterMap_modificationOf? :
    (elements.filterMap columnEdit?).filterMap (ColumnEdit.modificationOf? name) =
      modifications elements name := by
  rw [List.filterMap_filterMap, modifications]
  refine List.filterMap_congr fun element _ => ?_
  cases element <;> rfl

end Element

/-- If no added column is modified, each is as it was defined. -/
theorem Sketch.added_eq (unmodified : ∀ definition, .addColumn definition ∈ elements →
      Element.modifications elements definition.name = []) :
    added live table (elements.filterMap Element.columnEdit?) =
      (elements.filterMap Element.definition?).map (ofDefinition table) := by
  induction elements with
  | nil => rfl
  | cons element rest ih =>
    have others : ∀ definition, .addColumn definition ∈ rest →
        Element.modifications rest definition.name = [] := by
      intro definition inside
      have all := unmodified definition (.tail _ inside)
      rw [Element.modifications, List.filterMap_eq_nil_iff] at all
      exact List.filterMap_eq_nil_iff.2 fun element inside => all element (.tail _ inside)
    have ih := ih others
    cases element with
    | addColumn definition =>
      have plain : (ofDefinition table definition).through live table
          (rest.filterMap Element.columnEdit?) = ofDefinition table definition := by
        have none := unmodified definition (.head _)
        rw [through, Element.filterMap_modificationOf?]
        exact congrArg (List.foldl (modified live table) (ofDefinition table definition)) none
      simp only [List.filterMap_cons, Element.columnEdit?, Element.definition?, added,
        List.map_cons, plain, ih]
    | _ => exact ih

namespace Level.Renames

variable {added : List String} {name : String}
  (h : Renames current d (elements.filterMap Element.columnChange?) added)

include h

/-- An element that modifies a column modifies one that keeps its name. -/
theorem exists_of_modified {m : ColumnModification} (inside : .modifyColumn name m ∈ elements) :
    ∃ b ∈ current.columns, b.name = name ∧
      Change.finalName? (elements.filterMap Element.columnChange?) b.name = some name := by
  have listed : .modify name name ∈ elements.filterMap Element.columnChange? :=
    List.mem_filterMap.2 ⟨_, inside, rfl⟩
  obtain ⟨b, there, rfl⟩ := List.mem_map.1 ((h.listed _ listed).resolve_left nofun)
  exact ⟨b, there, rfl, h.consistent.finalName?_of_mem listed rfl⟩

/-- What modifies a column by the name it has in the end modifies it by the name it had. -/
theorem modifications_eq (inside : a ∈ current.columns)
    (final : Change.finalName? (elements.filterMap Element.columnChange?) a.name = some name) :
    Element.modifications elements name = Element.modifications elements a.name := by
  by_cases same : a.name = name
  · rw [same]
  -- A modified column keeps its name. So a renamed one is not modified by the name it had, and by
  -- its new name only another column could be, which would then stand under that name as well.
  rw [Element.modifications_eq_nil, Element.modifications_eq_nil]
  · intro m modified
    obtain ⟨b, inside', named, final'⟩ := h.exists_of_modified modified
    rw [named, final] at final'
    exact same (Option.some.inj final').symm
  · intro m modified
    obtain ⟨b, inside', named, final'⟩ := h.exists_of_modified modified
    obtain rfl := h.eq_of_finalName? inside inside' final final'
    exact same named

theorem modifications_added {definition : ColumnDefinition}
    (new : definition.name ∈ added) : Element.modifications elements definition.name = [] := by
  refine Element.modifications_eq_nil fun m modified => ?_
  obtain ⟨b, inside, _, final⟩ := h.exists_of_modified modified
  exact h.not_added inside final new

end Level.Renames

/-- What becomes of a column that stays: its name is that of the element that renames it, and it is
as its own modifications make it. Once it was made generated it has no default besides. A sequence
that it no longer draws from is gone, unless some other table draws from it too. -/
structure Becomes (live : Catalog) (current : Table) (elements : List Element) (c : Catalog)
    (a column : Column) : Prop where
  survives : Element.Survives elements a.name column.name
  modified : Modified live current.name (Element.modifications elements a.name) c.sequences a column
  apart : ∀ i, .modifyColumn a.name (.identity (.create i)) ∈ elements →
    column.identity = none ∨ column.default = none
  retired : ∀ s ∈ a.identity, column.identity = some s ∨ c.sequences.get? s = none ∨
    ∃ k t, k ≠ current.id ∧ live.tables.get? k = some t ∧ s ∈ t.sequenceIds

theorem Descends.becomes {column : Column} {added names : List String}
    (h : Descends live current (.ofElements current elements) c a column)
    (renames : Level.Renames current d (elements.filterMap Element.columnChange?) added)
    (inside : a ∈ current.columns) (drafts : Drafts live current names c) :
    Becomes live current elements c a column := by
  have fits : ((Element.modifications elements a.name).foldl (Sketch.modified live current.name)
      (Sketch.ofColumn a column.name)).Fits live c.sequences column := by
    rw [← renames.modifications_eq inside h.named, ← Element.filterMap_modificationOf?]
    exact h.fits
  refine ⟨(Element.finalName?_eq_some_iff renames.consistent).1 h.named, fits.modified,
    fun i said => fits.modified.apart (Element.mem_modifications.2 said), fun s generated => ?_⟩
  obtain drawn | spared := h.retired s generated
  · have supply := h.fits.supply
    rw [drawn] at supply
    exact .inl supply.1
  · refine .inr (or_iff_not_imp_left.2 fun there => ?_)
    obtain ⟨q, there⟩ := Option.ne_none_iff_exists'.1 there
    obtain ⟨k, t, other, there, drawn⟩ := spared q there
    obtain ⟨l, listed, body⟩ := drafts.others there other
    refine ⟨k, l, other, listed, ?_⟩
    rw [← Table.body_sequenceIds, body]
    exact drawn

namespace Planner

variable {σ : Type} {p : Planner σ} {e : Edits} {plan : Plan} {k k' : Context}
  (wf : live.WellFormed) (found : live.tables.get? current.id = some current)

include wf found

/-- What becomes of the columns under elements that name none of them twice, but to modify it again
and again. The columns that no element drops are there in their order, and behind them those
that are added, as they were defined, at positions without a gap. Each new sequence is that of one
of these columns, and the ids that were given away are the next ones. -/
theorem columns_of_plan (once : Element.NamedOnce current elements)
    (route : Route.ofElements current elements = .ok (.edit e))
    (planned : p.plan live current.id current e k = .ok plan k') :
    ∃ d kept added, plan.staged.definition = .ok d ∧ d.columns = kept ++ added ∧ d.Positioned ∧
      List.Forall₂ (Becomes live current elements plan.staged.catalog)
        (current.columns.filter fun a => .dropColumn a.name ∉ elements) kept ∧
      List.Forall₂ (fun definition =>
          (Sketch.ofDefinition current.name definition).Fits live plan.staged.catalog.sequences)
        (elements.filterMap Element.definition?) added ∧
      (∀ ⦃s q⦄, plan.staged.catalog.sequences.get? s = some q → live.nextId < s →
        s ∈ d.sequenceIds) ∧
      (d.sequenceIds.filter fun s => live.nextId < s).Nodup ∧
      plan.staged.catalog.nextId ≤ live.nextId + (e.columns.length + e.parents.length) := by
  have few := nextId_le_of_plan wf.numbered planned
  obtain rfl := Route.edits_eq route
  obtain ⟨fits, _, _⟩ := (p.wp_plan wf found _ k).ok planned
  obtain ⟨d, sketched⟩ := (wp_plan_sketched wf found p _ k).ok planned
  have renames := renames_of_plan wf found once planned sketched.there
  obtain ⟨kept, added, parts, stay, new⟩ := sketched.exists_parts
  have stays (a : Column) : (Change.finalName?
      (Edits.ofElements current elements).columnChanges a.name).isSome =
        decide (.dropColumn a.name ∉ elements) := by
    show (Change.finalName? (elements.filterMap Element.columnChange?) a.name).isSome = _
    rw [Element.finalName?_eq_laterName? renames.consistent, Element.laterName?]
    split <;> simp [*]
  refine ⟨d, kept, added, fits.definition_eq sketched.there, parts,
    (fits.drafts.drafted sketched.there).positioned, ?_, ?_, sketched.drawn, sketched.once, few⟩
  · simp only [stays] at stay
    refine (forall₂_mem stay).imp fun a column ⟨descends, inside, _⟩ => ?_
    exact descends.becomes renames (List.mem_filter.1 inside).1 fits.drafts
  · rw [← List.forall₂_map_left_iff, ← Sketch.added_eq]
    · exact new
    · intro definition inside
      refine renames.modifications_added (Edits.mem_addedNames_iff.2 ?_)
      exact List.mem_filterMap.2 ⟨_, inside, rfl⟩

/-- Numbers the orders anew, in steps of five, and adds a note to them. -/
def numberingAnew : List Element :=
  [.modifyColumn "number" (.default (some (.literal "0"))),
    .modifyColumn "number" (.identity (.create ⟨10, 1⟩)),
    .addColumn { name := "note", descriptor := .ofType .bigInt },
    .modifyColumn "number" (.identity (.setIncrement 5))]

omit wf found in
/-- The numbers of the orders come from a new sequence that counts by five, and the default is
gone. -/
theorem columns_of_plan_shop : ∃ e plan k d column s,
    Route.ofElements orders numberingAnew = .ok (.edit e) ∧
    swapping.plan shop 2 orders e {} = .ok plan k ∧ plan.staged.definition = .ok d ∧
    column ∈ d.columns ∧ column.name = "number" ∧ column.default = none ∧
    column.identity = some s ∧ plan.staged.catalog.sequences.get? s =
      some { Sequence.ofStart "shop" "order_number_seq" 10 5 with id := s } := by
  have once : Element.NamedOnce orders numberingAnew := by
    unfold Element.NamedOnce
    decide
  have route : Route.ofElements orders numberingAnew =
      .ok (.edit (Edits.ofElements orders numberingAnew)) := rfl
  obtain ⟨plan, k, planned, _⟩ := exists_ok_of_wp (show
    WP (swapping.plan shop 2 orders (Edits.ofElements orders numberingAnew))
      (fun _ _ => True) (fun _ _ => False) {} by decide +kernel)
  obtain ⟨d, kept, added, defined, parts, _, stay, _⟩ :=
    columns_of_plan shop_wellFormed get?_shop_orders once route planned
  have all : (orders.columns.filter fun a => .dropColumn a.name ∉ numberingAnew) =
      orders.columns := by decide +kernel
  rw [all] at stay
  cases stay with
  | @cons _ column _ _ becomes _ =>
    obtain ⟨plain, s, drawn, _, there⟩ := becomes.modified.created
      [.default (some (.literal "0"))] ⟨10, 1⟩ [.identity (.setIncrement 5)] rfl (by decide)
    have named : column.name = "number" := by
      obtain renamed | ⟨same, _⟩ := becomes.survives
      · simp [numberingAnew] at renamed
      · exact same
    rw [named] at there
    exact ⟨_, plan, k, d, column, s, route, planned, defined, parts ▸ .head _, named, plain, drawn,
      there⟩

end Planner

end GroupedTables
