import GroupedTables.Proofs.Catalog.Histories
import GroupedTables.Proofs.Catalog.Selection

/-!
# Calls that fail

Many edits change a catalog more than once: a join is put in before all that is below its child
goes into a group, and a table that is removed loses its children first. No edit takes back what
it has changed. A call that fails leaves no trace all the same, since what it looks up once it has
changed something is there: the joins and the tables that name them tell of the same trees, and no
id is above the counter. More is not asked of the catalog; its tables may be in any groups, and the
counter may be about to start again.

So a history comes to the same without the calls in it that failed.
-/

namespace GroupedTables.Catalog

open GroupedTables.Action Relation

variable {c c' : Catalog} {f : Fault} {request : Request} {requests : List Request}

section

variable [Numbering]

theorem clean_createTable (definition : Table) :
    WP (createTable definition) (fun _ _ => True) (fun _ => (· = c)) c := by
  unfold createTable requireUnused
  simp only [wp_bind, wp_get, wp_ite]
  exact ⟨fun _ => rfl, fun _ => trivial⟩

/-- Whatever id a join gets, and even if it takes the place of another one, all that is below the
child then is there and goes into a group. -/
theorem clean_addJoin (linked : c.Linked) {parent child : TableId} {columns : List JoinColumn} :
    WP (addJoin parent child columns) (fun _ _ => True) (fun _ => (· = c)) c := by
  unfold addJoin
  simp only [wp_bind, wp_get, wp_lift, implies_true, and_true]
  refine fun p _ t below _ _ => wp_ite.2 ⟨fun _ => rfl, fun _ => ?_⟩
  have there := table_eq_ok_iff.1 below
  simp only [allocateId, wp_bind, wp_modifyGet, wp_modify]
  rw [wp_of_ok (editTable_eq (by exact there)), wp_bind, wp_of_ok (assignGroup_eq ?_), wp_pure]
  · trivial
  intro k inside
  suffices found : ∃ t, c.tables.get? k = some t from exists_editing_iff.2 found
  by_cases same : k = child
  · exact ⟨t, same ▸ there⟩
  · obtain ⟨j, listed, rfl, _⟩ := exists_join_of_mem_subtree inside same
    obtain ⟨i, listed⟩ := OrderedMap.mem_values_iff.1 listed
    rw [joins_editing, OrderedMap.get?_insert] at listed
    split at listed
    · cases listed
      exact absurd rfl same
    · obtain ⟨u, found, _⟩ := linked.child listed
      exact ⟨u, found⟩

/-- However ids are counted, a call that fails has changed nothing. -/
theorem Request.unchanged_of_failed (numbered : c.Numbered) (linked : c.Linked)
    (failed : request.run c = .error f c') : c' = c := by
  have clean : WP request.run (fun _ _ => True) (fun _ => (· = c)) c := by
    have others := (request.takesSteps numbered linked).mono (fun _ _ _ => trivial) fun _ _ => id
    cases request with
    | addTable name => exact wp_discard.2 (clean_createTable { id := 0, name })
    | createTable definition => exact wp_discard.2 (clean_createTable definition)
    | addJoin => exact wp_discard.2 (clean_addJoin linked)
    | addSequence => trivial
    | regroup => trivial
    | _ => exact others
  exact clean.error failed

end

/-- A table of another catalog is looked at before it is taken over. -/
theorem unchanged_of_copyTable {other : Catalog} {id : TableId}
    (failed : copyTable other id c = .error f c') : c' = c := by
  have clean : WP (copyTable other id) (fun _ _ => True) (fun _ => (· = c)) c := by
    unfold copyTable
    simp only [wp_bind, wp_lift, wp_get, wp_ite, wp_throw, wp_set]
    exact ⟨fun _ _ => ⟨fun _ => trivial, fun _ => trivial⟩, fun _ _ => trivial⟩
  exact clean.error failed

/-- Whatever is called and with whatever arguments, a call that fails leaves the catalog as it
was: what is in it, in which order, and the counter. -/
theorem unchanged_of_error [Numbering] (numbered : c.Numbered) (linked : c.Linked) :
    (∀ (request : Request) (f : Fault) (c' : Catalog),
      request.run c = .error f c' → c' = c) ∧
    ∀ (other : Catalog) (id : TableId) (f : Fault) (c' : Catalog),
      copyTable other id c = .error f c' → c' = c :=
  ⟨fun _ _ _ => Request.unchanged_of_failed numbered linked,
    fun _ _ _ _ => unchanged_of_copyTable⟩

/-- The customers of a shop cannot be hung under their orders: this would close a circle. -/
theorem unchanged_of_error_shop :
    ∃ f c', (Request.addJoin 2 1 [⟨"number", "number"⟩]).run shop = .error f c' ∧
      f.code = "CATALOG_007" ∧ c' = shop := by
  have wf := shop_wellFormed
  have refused : WP (Request.addJoin 2 1 [⟨"number", "number"⟩]).run (fun _ _ => False)
      (fun f _ => f.code = "CATALOG_007") shop := by decide +kernel
  obtain ⟨f, c', failed, circle⟩ := exists_error_of_wp refused
  exact ⟨f, c', failed, circle,
    (unchanged_of_error wf.numbered wf.intact.toLinked).1 _ f c' failed⟩

open scoped Unbounded

/-- The calls that succeed if some are made one after the other. -/
def successes : Catalog → List Request → List Request
  | _, [] => []
  | c, request :: rest =>
    match request.run c with
    | .ok _ c' => request :: successes c' rest
    | .error _ c' => successes c' rest

/-- The calls that failed may as well not have been made. -/
theorem Intact.foldl_successes (h : c.Intact) (requests : List Request) :
    (c.successes requests).foldl Request.after c = requests.foldl Request.after c := by
  induction requests generalizing c with
  | nil => rfl
  | cons request rest ih =>
    have intact := h.after request
    unfold successes
    rw [List.foldl_cons]
    cases ended : request.run c with
    | ok _ c' =>
      have reached : request.after c = c' := by rw [Request.after, outcome, ended]
      rw [reached] at intact
      rw [List.foldl_cons, reached]
      exact ih intact
    | error f c' =>
      have same : c' = c := Request.unchanged_of_failed h.toNumbered h.toLinked ended
      have reached : request.after c = c := by rw [Request.after, outcome, ended, same]
      rw [same, reached]
      exact ih h

theorem history_successes (requests : List Request) :
    history (empty.successes requests) = history requests :=
  orderly_empty.toIntact.foldl_successes requests

end GroupedTables.Catalog
