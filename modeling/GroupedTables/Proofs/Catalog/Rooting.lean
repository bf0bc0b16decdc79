import GroupedTables.Proofs.Catalog.Joining
import GroupedTables.Proofs.Catalog.Ways

/-!
# The way up

Where tables and joins belong together, a table leads up to the one it hangs under and no way up
breaks off: it ends at a root, or it goes round in a circle. In a catalog in which no table is below
itself it ends for every table, and where it ends for every table there can be no circle.
-/

namespace GroupedTables.Catalog

open Check Relation

variable {c : Catalog} {k above root : TableId}

/-- The join a table hangs on is the one it names. -/
theorem Linked.parentJoin_eq (h : c.Linked) (there : ∃ t, c.tables.get? k = some t) :
    c.parentJoin k = .ok ((c.hook k).bind c.joins.get?) := by
  obtain ⟨t, there⟩ := there
  cases hung : c.hook k with
  | none =>
    rw [hook_of_get? there] at hung
    simp only [parentJoin, table_of_get? there, hung, bind, Except.bind, pure, Except.pure,
      Option.bind_none]
  | some i =>
    obtain ⟨j, found, _⟩ := (h.hook_iff k i).1 hung
    rw [hook_of_get? there] at hung
    simp only [parentJoin, table_of_get? there, hung, join_of_get? found, found, bind, Except.bind,
      pure, Except.pure, Option.bind_some]

theorem Linked.bind_hook_eq_none_iff (h : c.Linked) :
    (c.hook k).bind c.joins.get? = none ↔ c.hook k = none := by
  cases hung : c.hook k with
  | none => exact iff_of_true rfl rfl
  | some i =>
    obtain ⟨j, found, _⟩ := (h.hook_iff k i).1 hung
    rw [Option.bind_some, found]
    exact iff_of_false nofun nofun

/-- Above a table that exists are tables that exist. -/
theorem Linked.exists_of_above (h : c.Linked) (there : ∃ t, c.tables.get? k = some t)
    (below : c.Below above k) : ∃ t, c.tables.get? above = some t := by
  obtain same | ⟨y, hangs, _⟩ := below.cases_head
  · exact same ▸ there
  · obtain ⟨i, j, there, rfl, _⟩ := hangs_iff.1 hangs
    exact h.parent there

theorem Linked.leadsTo_iff (h : c.Linked) : c.LeadsTo k above ↔ c.Hangs above k := by
  constructor
  · rintro ⟨t, i, j, there, named, joined, rfl⟩
    obtain ⟨j', joined', below⟩ := (h.hook_iff k i).1 ((hook_of_get? there).trans named)
    cases joined.symm.trans joined'
    exact hangs_iff.2 ⟨i, j, joined, rfl, below⟩
  · intro hangs
    obtain ⟨i, j, joined, rfl, rfl⟩ := hangs_iff.1 hangs
    obtain ⟨t, there, named⟩ := h.child joined
    exact ⟨t, i, j, there, named, joined, rfl⟩

theorem Linked.leadsTo_eq (h : c.Linked) : c.LeadsTo = Function.swap c.Hangs := by
  ext k above
  exact h.leadsTo_iff

theorem Linked.reaches_iff (h : c.Linked) : ReflTransGen c.LeadsTo k root ↔ c.Below root k := by
  rw [h.leadsTo_eq, reflTransGen_swap]
  exact Iff.rfl

theorem Linked.circle_iff (h : c.Linked) : TransGen c.LeadsTo k k ↔ TransGen c.Hangs k k := by
  rw [h.leadsTo_eq, transGen_swap]

theorem isTop_iff_hook (there : ∃ t, c.tables.get? k = some t) :
    c.IsTop k ↔ c.hook k = none := by
  obtain ⟨t, there⟩ := there
  rw [hook_of_get? there, IsTop, there]
  simp only [Option.some.injEq, exists_eq_left']

/-- No table that is there names a join that is missing. -/
theorem Linked.not_breaksOff (h : c.Linked) (there : ∃ t, c.tables.get? k = some t) :
    ¬c.BreaksOff k := by
  obtain ⟨t, there⟩ := there
  rintro (missing | ⟨t', i, there', named, missing⟩)
  · cases there.symm.trans missing
  · obtain ⟨j, joined, _⟩ := (h.hook_iff k i).1 ((hook_of_get? there').trans named)
    cases joined.symm.trans missing

/-- The table right above a table is the one it hangs under. -/
theorem Linked.parent_of_hangs (h : c.Linked) (hangs : c.Hangs above k) :
    c.parent k = .ok (some above) :=
  (h.leadsTo_iff.2 hangs).parent_eq

theorem Linked.hangs_of_parent (h : c.Linked) (found : c.parent k = .ok (some above)) :
    c.Hangs above k :=
  h.leadsTo_iff.1 (parent_eq_some_iff.1 found)

/-- The way up from a table that exists meets tables that exist. -/
theorem Linked.not_breaksOff_above (h : c.Linked) (there : ∃ t, c.tables.get? k = some t)
    (way : ReflTransGen c.LeadsTo k above) : ¬c.BreaksOff above :=
  h.not_breaksOff (h.exists_of_above there (h.reaches_iff.1 way))

theorem Linked.foresees_rootOf (h : c.Linked) (there : ∃ t, c.tables.get? k = some t) :
    Foresees (c.rootOf k) := by
  obtain ⟨r, ended, -⟩ | ⟨x, breach, -, way, broken⟩ | ⟨_, _, failed, -⟩ := c.rootOf_cases k
  · rw [ended]
    exact limits_ok r
  · exact absurd broken (h.not_breaksOff_above there way)
  · rw [failed]
    exact limits_error trivial

/-- The root of a table is the one table above it that nothing is above. -/
theorem Linked.rootOf_eq_ok_iff (h : c.Linked) (there : ∃ t, c.tables.get? k = some t) :
    c.rootOf k = .ok root ↔ c.Below root k ∧ c.hook root = none := by
  rw [rootOf_eq_ok_iff_isTop, h.reaches_iff]
  exact and_congr_right fun below => isTop_iff_hook (h.exists_of_above there below)

/-- Without circles every table has a root. -/
theorem Linked.exists_rootOf (h : c.Linked) (acyclic : c.Acyclic)
    (there : ∃ t, c.tables.get? k = some t) : ∃ root, c.rootOf k = .ok root := by
  obtain ⟨r, ended, -⟩ | ⟨x, breach, -, way, broken⟩ | ⟨_, _, -, endless⟩ := c.rootOf_cases k
  · exact ⟨r, ended⟩
  · exact absurd broken (h.not_breaksOff_above there way)
  · obtain ⟨x, circle⟩ := endless.exists_circle
    exact absurd (h.circle_iff.1 circle) (acyclic x)

/-- Where every table has a root there is no circle. -/
theorem Linked.acyclic (h : c.Linked)
    (rooted : ∀ ⦃k t⦄, c.tables.get? k = some t → ∃ root, c.rootOf k = .ok root) : c.Acyclic := by
  intro k circle
  obtain ⟨_, _, hangs⟩ := TransGen.tail'_iff.1 circle
  obtain ⟨i, j, joined, _, rfl⟩ := hangs_iff.1 hangs
  obtain ⟨t, there, _⟩ := h.child joined
  obtain ⟨root, ended⟩ := rooted there
  obtain ⟨way, top⟩ := rootOf_eq_ok_iff_isTop.1 ended
  obtain ⟨_, up, _⟩ := TransGen.head'_iff.1 (circle_of_circle (h.circle_iff.2 circle) way)
  exact top.not_leadsTo up

/-- Above every table is one root at most. -/
theorem Linked.top_unique (h : c.Linked) {a b : TableId} (below : c.Below a k)
    (below' : c.Below b k) (top : c.hook a = none) (top' : c.hook b = none) : a = b := by
  induction below with
  | refl =>
    obtain same | ⟨y, _, hangs⟩ := below'.cases_tail
    · exact same
    · obtain ⟨i, j, there, _, child⟩ := hangs_iff.1 hangs
      exact absurd child (h.no_join_of_hook top there)
  | tail _ hangs ih =>
    obtain ⟨i, j, there, rfl, rfl⟩ := hangs_iff.1 hangs
    obtain same | ⟨y, below', hangs'⟩ := below'.cases_tail
    · exact absurd same (h.no_join_of_hook top' there)
    · obtain ⟨i', j', there', rfl, child⟩ := hangs_iff.1 hangs'
      rw [(h.join_unique there' there child).2] at below'
      exact ih below'

end GroupedTables.Catalog
