import GroupedTables.Proofs.Alter.Changes
import GroupedTables.Proofs.Alter.ColumnEdits

/-!
# What the elements of a statement ask for

Each element goes into one list of the edits of a statement, in the order of the statement. Where
no column is named by two elements, but to be modified again and again, the list of column changes
can be read off the elements one by one.
-/

namespace GroupedTables

variable {t : Table} {e e' : Edits} {element : Element} {elements : List Element} {old new : String}

namespace Element

@[simp] def columnChange? : Element → Option Change
  | addColumn definition => some (.add definition.name)
  | dropColumn name => some (.drop name)
  | modifyColumn name _ => some (.modify name name)
  | renameColumn name newName => some (.modify name newName)
  | _ => none

/-- What an element does to the columns that are there in the end. -/
@[simp] def columnEdit? : Element → Option ColumnEdit
  | addColumn definition => some (.add definition)
  | modifyColumn name modification => some (.modify name modification)
  | _ => none

@[simp] def indexChange? (t : Table) : Element → Option Change
  | dropConstraint constraint => (Edits.droppedKey t constraint).toOption.map .drop
  | _ => none

@[simp] def keyEdit? : Element → Option KeyEdit
  | addConstraint (.primaryKey _ columns) => some (.primary columns)
  | addConstraint (.unique name columns) => some (.unique name columns)
  | _ => none

@[simp] def parentEdit? : Element → Option ParentEdit
  | addForeignKey key => some (.join key)
  | dropForeignKey .. => some .leave
  | _ => none

end Element

/-- The edits of elements, each list in the order of the statement. -/
def Edits.ofElements (t : Table) (elements : List Element) : Edits where
  columnChanges := elements.filterMap Element.columnChange?
  indexChanges := elements.filterMap (Element.indexChange? t)
  columns := elements.filterMap Element.columnEdit?
  keys := elements.filterMap Element.keyEdit?
  parents := elements.filterMap Element.parentEdit?

/-- Edits put behind other ones. -/
def Edits.append (e e' : Edits) : Edits where
  columnChanges := e.columnChanges ++ e'.columnChanges
  indexChanges := e.indexChanges ++ e'.indexChanges
  columns := e.columns ++ e'.columns
  keys := e.keys ++ e'.keys
  parents := e.parents ++ e'.parents

theorem Edits.append_ofElements (element : Element) (elements : List Element) :
    (e.append (.ofElements t [element])).append (.ofElements t elements) =
      e.append (.ofElements t (element :: elements)) := by
  simp only [Edits.append, Edits.ofElements, List.append_assoc, ← List.filterMap_append,
    List.singleton_append]

theorem Edits.withElement_eq (sorted : e.withElement t element = .ok e') :
    e' = e.append (.ofElements t [element]) := by
  cases element with
  | addColumn definition | dropColumn name | modifyColumn name modification =>
    cases sorted
    simp [Edits.append, Edits.ofElements]
  | renameColumn name newName | addForeignKey key | dropForeignKey grouping name =>
    simp only [Edits.withElement] at sorted
    split at sorted <;> cases sorted
    simp [Edits.append, Edits.ofElements]
  | addConstraint constraint =>
    cases constraint <;> cases sorted <;>
      simp [Edits.append, Edits.ofElements]
  | dropConstraint constraint =>
    cases dropped : droppedKey t constraint with
    | ok name =>
      simp only [Edits.withElement, dropped, Except.map] at sorted
      cases sorted
      simp [Edits.append, Edits.ofElements, dropped, Except.toOption]
    | error f =>
      simp only [Edits.withElement, dropped, Except.map] at sorted
      cases sorted
  | renameTable newName | other text =>
    cases sorted
    cases e
    simp [Edits.append, Edits.ofElements]

theorem Route.eq_of_ofElementsFrom (route : Route.ofElementsFrom t e elements = .ok (.edit e')) :
    e' = e.append (.ofElements t elements) := by
  induction elements generalizing e with
  | nil =>
    cases route
    simp [Edits.append, Edits.ofElements]
  | cons element rest ih =>
    cases element with
    | renameTable newName => cases route
    | other text => cases route
    | _ =>
      obtain ⟨e'', sorted, route⟩ := Check.bind_eq_ok.1 route
      rw [ih route, Edits.withElement_eq sorted, Edits.append_ofElements]

/-- The edits of a statement are those of its elements. -/
theorem Route.edits_eq (route : Route.ofElements t elements = .ok (.edit e)) :
    e = .ofElements t elements := by
  unfold Route.ofElements at route
  split at route
  · cases route
  · exact (Route.eq_of_ofElementsFrom route).trans rfl

/-- The faults that elements are refused with when they are sorted. -/
def Fault.RefusesElement : Fault → Prop
  | .noSuchColumn _ | .noSuchUnique .. | .foreignKeyNotGrouping | .checkConstraint => True
  | _ => False

theorem Fault.RefusesElement.foreseen {f : Fault} (h : f.RefusesElement) : f.Foreseen := by
  cases f with
  | internal breach => exact h
  | _ => trivial

theorem Edits.refuses_droppedKey (t : Table) (drop : ConstraintDrop) :
    Check.Limits Fault.RefusesElement (Edits.droppedKey t drop) := by
  cases drop with
  | primaryKey => exact Check.limits_ok _
  | unique name =>
    exact Check.Limits.ite (fun _ => Check.limits_error trivial) fun _ => Check.limits_ok _
  | named name =>
    exact Check.Limits.ite (fun _ => Check.limits_error trivial) fun _ => Check.limits_ok _
  | check name => exact Check.limits_error trivial

theorem Edits.refuses_withElement (t : Table) (e : Edits) (element : Element) :
    Check.Limits Fault.RefusesElement (e.withElement t element) := by
  cases element with
  | renameColumn name newName =>
    exact Check.Limits.ite (fun _ => Check.limits_error trivial) fun _ => Check.limits_ok _
  | addForeignKey key =>
    exact Check.Limits.ite (fun _ => Check.limits_ok _) fun _ => Check.limits_error trivial
  | dropForeignKey grouping name =>
    exact Check.Limits.ite (fun _ => Check.limits_ok _) fun _ => Check.limits_error trivial
  | addConstraint constraint =>
    cases constraint with
    | check => exact Check.limits_error trivial
    | _ => exact Check.limits_ok _
  | dropConstraint constraint => exact (Edits.refuses_droppedKey t constraint).map
  | _ => exact Check.limits_ok _

theorem Route.refuses_ofElementsFrom (t : Table) (e : Edits) (elements : List Element) :
    Check.Limits Fault.RefusesElement (Route.ofElementsFrom t e elements) := by
  induction elements generalizing e with
  | nil => exact Check.limits_ok _
  | cons element rest ih =>
    cases element with
    | renameTable newName => exact Check.limits_ok _
    | other text => exact Check.limits_ok _
    | _ => exact (Edits.refuses_withElement t e _).bind fun e' _ => ih e'

theorem Route.refuses_ofElements (t : Table) (elements : List Element) :
    Check.Limits Fault.RefusesElement (Route.ofElements t elements) :=
  .ite (fun _ => Check.limits_ok _) fun _ => refuses_ofElementsFrom t {} elements

/-- All that a statement says of indexes that were there is to drop them. -/
theorem Edits.isDrop_of_ofElements {change : Change}
    (listed : change ∈ (Edits.ofElements t elements).indexChanges) : change.isDrop = true := by
  obtain ⟨element, _, listed⟩ := List.mem_filterMap.1 listed
  cases element with
  | dropConstraint constraint =>
    obtain ⟨name, _, rfl⟩ := Option.map_eq_some_iff.1 listed
    rfl
  | _ => cases listed

/-- The columns that are added are those listed as added. -/
theorem Edits.mem_addedNames_iff {name : String} :
    name ∈ (Edits.ofElements t elements).columns.flatMap ColumnEdit.addedNames ↔
      .add name ∈ (Edits.ofElements t elements).columnChanges := by
  have added {element : Element} : (∃ edit, element.columnEdit? = some edit ∧
      name ∈ edit.addedNames) ↔ element.columnChange? = some (.add name) := by
    cases element <;> simp [ColumnEdit.addedNames, eq_comm]
  constructor
  · intro inside
    obtain ⟨edit, there, inside⟩ := List.mem_flatMap.1 inside
    obtain ⟨element, there, same⟩ := List.mem_filterMap.1 there
    exact List.mem_filterMap.2 ⟨element, there, added.1 ⟨edit, same, inside⟩⟩
  · intro listed
    obtain ⟨element, there, same⟩ := List.mem_filterMap.1 listed
    obtain ⟨edit, same, inside⟩ := added.2 same
    exact List.mem_flatMap.2 ⟨edit, List.mem_filterMap.2 ⟨element, there, same⟩, inside⟩

namespace Element

def column? : Element → Option String
  | dropColumn name => some name
  | modifyColumn name _ => some name
  | renameColumn name _ => some name
  | _ => none

/-- Whether an element modifies a column that keeps its name. -/
def isModification : Element → Bool
  | modifyColumn .. => true
  | _ => false

/-- No column of the table as it was is named by two elements, but to be modified again and
again. -/
def NamedOnce (t : Table) (elements : List Element) : Prop :=
  elements.Pairwise fun a b => ∀ name ∈ t.columnNames, a.column? = some name →
    b.column? = some name → a.isModification ∧ b.isModification

/-- A column is there in the end, under a name: that of the element that renames it, or the one it
had if no element drops or renames it. -/
def Survives (elements : List Element) (old new : String) : Prop :=
  .renameColumn old new ∈ elements ∨
    new = old ∧ .dropColumn old ∉ elements ∧ ∀ name, .renameColumn old name ∉ elements

def newName? (old : String) : Element → Option String
  | renameColumn name newName => if name = old then some newName else none
  | _ => none

/-- The name of a column in the end, unless it is dropped. -/
def laterName? (elements : List Element) (old : String) : Option String :=
  if .dropColumn old ∈ elements then none
  else some ((elements.findSome? (newName? old)).getD old)

theorem newName?_eq_some_iff :
    newName? old element = some new ↔ element = .renameColumn old new := by
  cases element <;> simp [newName?, eq_comm]

theorem oldName?_columnChange? {change : Change} (listed : element.columnChange? = some change) :
    change.oldName? = element.column? := by
  cases element <;> cases listed <;> rfl

/-- If elements name columns that are there, and none twice, their changes do not contradict each
other. -/
theorem NamedOnce.consistent (h : NamedOnce t elements)
    (listed : ∀ change ∈ elements.filterMap columnChange?,
      change.isAdd = true ∨ change.name ∈ t.columnNames) :
    Change.Consistent (elements.filterMap columnChange?) := by
  intro a inside b inside' same changes
  obtain ⟨name, named⟩ := Option.ne_none_iff_exists'.1 changes
  have original := Change.mem_columnNames_of_oldName? (listed a inside) named
  obtain ⟨x, there, listed⟩ := List.mem_filterMap.1 inside
  obtain ⟨y, there', listed'⟩ := List.mem_filterMap.1 inside'
  have first : x.column? = some name := (oldName?_columnChange? listed).symm.trans named
  have second : y.column? = some name :=
    (oldName?_columnChange? listed').symm.trans (same.symm.trans named)
  by_cases equal : x = y
  · rw [equal, listed'] at listed
    exact (Option.some.inj listed).symm
  · have symmetric : Std.Symm fun a b : Element => ∀ name ∈ t.columnNames,
        a.column? = some name → b.column? = some name → a.isModification ∧ b.isModification :=
      ⟨fun _ _ both name inside named named' => (both name inside named' named).symm⟩
    have both := List.Pairwise.forall h there there' equal
    obtain ⟨modifies, modifies'⟩ := both name original first second
    cases x <;> cases modifies
    cases y <;> cases modifies'
    cases listed
    cases listed'
    cases first
    cases second
    rfl

/-- A column that is neither dropped nor renamed keeps its name. -/
theorem finalName?_of_kept (kept : .dropColumn old ∉ elements)
    (named : ∀ name, .renameColumn old name ∉ elements) :
    Change.finalName? (elements.filterMap columnChange?) old = some old := by
  cases first : Change.ofOldName? (elements.filterMap columnChange?) old with
  | none => rw [Change.finalName?, first]
  | some change =>
    rw [Change.finalName?, first]
    have same := Change.oldName?_of_ofOldName? first
    obtain ⟨element, there, listed⟩ := List.mem_filterMap.1 (Change.mem_of_ofOldName? first)
    cases element with
    | dropColumn =>
      cases listed
      cases same
      exact absurd there kept
    | renameColumn _ name =>
      cases listed
      cases same
      exact absurd there (named name)
    | modifyColumn =>
      cases listed
      exact same
    | addColumn =>
      cases listed
      cases same
    | _ => cases listed

/-- The name that the change list gives a column is the one it has in the end. -/
theorem finalName?_eq_some_iff (consistent : Change.Consistent (elements.filterMap columnChange?)) :
    Change.finalName? (elements.filterMap columnChange?) old = some new ↔
      Survives elements old new := by
  have final {element : Element} {change : Change} (there : element ∈ elements)
      (listed : element.columnChange? = some change) (named : change.oldName? = some old) :
      Change.finalName? (elements.filterMap columnChange?) old = change.newName? :=
    consistent.finalName?_of_mem (List.mem_filterMap.2 ⟨element, there, listed⟩) named
  by_cases dropped : .dropColumn old ∈ elements
  case pos =>
    have gone := final dropped rfl rfl
    rw [gone]
    refine iff_of_false nofun ?_
    rintro (renamed | ⟨-, kept, -⟩)
    · cases gone.symm.trans (final renamed rfl rfl)
    · exact kept dropped
  case neg =>
    by_cases renamed : ∃ name, .renameColumn old name ∈ elements
    case pos =>
      obtain ⟨name, renamed⟩ := renamed
      constructor
      · intro named
        cases named.symm.trans (final renamed rfl rfl)
        exact .inl renamed
      · rintro (renamed' | ⟨-, -, kept⟩)
        · exact final renamed' rfl rfl
        · exact absurd renamed (kept name)
    case neg =>
      have unnamed := not_exists.1 renamed
      rw [finalName?_of_kept dropped unnamed, Option.some.injEq]
      constructor
      · rintro rfl
        exact .inr ⟨rfl, dropped, unnamed⟩
      · rintro (renamed' | ⟨rfl, -, -⟩)
        · exact absurd renamed' (unnamed _)
        · rfl

theorem finalName?_eq_laterName?
    (consistent : Change.Consistent (elements.filterMap columnChange?)) :
    Change.finalName? (elements.filterMap columnChange?) old = laterName? elements old := by
  unfold laterName?
  split
  case isTrue dropped =>
    exact consistent.finalName?_of_mem (List.mem_filterMap.2 ⟨_, dropped, rfl⟩) rfl
  case isFalse kept =>
    cases renamed : elements.findSome? (newName? old) with
    | some new =>
      obtain ⟨element, inside, gives⟩ := List.exists_of_findSome?_eq_some renamed
      cases newName?_eq_some_iff.1 gives
      exact consistent.finalName?_of_mem (List.mem_filterMap.2 ⟨_, inside, rfl⟩) rfl
    | none =>
      refine finalName?_of_kept kept fun name inside => ?_
      have unnamed := List.findSome?_eq_none_iff.1 renamed _ inside
      rw [newName?_eq_some_iff.2 rfl] at unnamed
      cases unnamed

def firstNaming? (elements : List Element) (old : String) : Option Element :=
  elements.find? fun element => element.column? == some old

/-- The name that the first element naming it leaves a column with. -/
def givenName (elements : List Element) (old : String) : String :=
  (firstNaming? elements old).bind (newName? old) |>.getD old

theorem ofOldName?_eq_bind : Change.ofOldName? (elements.filterMap columnChange?) old =
    (firstNaming? elements old).bind columnChange? := by
  have names (element : Element) :
      element.columnChange?.any (·.oldName? == some old) = (element.column? == some old) := by
    cases element <;> rfl
  rw [Change.ofOldName?, List.find?_filterMap, firstNaming?]
  simp only [names]

/-- The first element that names a column decides what becomes of it. -/
theorem finalName?_eq_ite : Change.finalName? (elements.filterMap columnChange?) old =
    if firstNaming? elements old = some (.dropColumn old) then none
    else some (givenName elements old) := by
  rw [Change.finalName?, ofOldName?_eq_bind, givenName]
  cases first : firstNaming? elements old with
  | none => rfl
  | some element =>
    have named : element.column? = some old := by simpa using List.find?_some first
    cases element with
    | dropColumn => cases named; simp [Change.newName?]
    | modifyColumn => cases named; rfl
    | renameColumn => cases named; simp [Change.newName?, newName?]
    | _ => cases named

end Element

end GroupedTables
