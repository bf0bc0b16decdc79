import GroupedTables.Proofs.Catalog.Detaching

/-!
# Joining tables

A table that is joined gains the join it hangs on and takes all below it into the group of
its parent. The groups below the table may be any before that, so a table whose own group
was given up can still be joined. Joining fails only with faults that are foreseen, since
whatever it looks up is there.
-/

namespace GroupedTables.Catalog

open GroupedTables.Action
open scoped Unbounded

variable {c : Catalog} {k parent child : TableId} {i : JoinId} {j : Join} {t p : Table}
  {columns : List JoinColumn}

/-- The catalog with a new join that a table hangs on. The groups are as they were. -/
def hooked (c : Catalog) (parent child : TableId) (columns : List JoinColumn) : Catalog :=
  let id := c.nextId + 1
  { c.editing child ({ · with parentJoin := some id }) with
    joins := c.joins.insert id { id, parent, child, columns }, nextId := id }

/-- The catalog with a table joined under another one. -/
def joined (c : Catalog) (parent child : TableId) (columns : List JoinColumn) : Catalog :=
  let c' := c.hooked parent child columns
  c'.inGroup (c'.subtree child) (c.groupOf parent)

theorem tables_hooked : (c.hooked parent child columns).tables = c.tables.map fun k t =>
    if k = child then { t with parentJoin := some (c.nextId + 1) } else t := rfl

theorem get?_joins_hooked : (c.hooked parent child columns).joins.get? i =
    if i = c.nextId + 1 then some { id := c.nextId + 1, parent, child, columns }
    else c.joins.get? i :=
  OrderedMap.get?_insert ..

theorem hook_hooked (there : c.tables.get? child = some t) :
    (c.hooked parent child columns).hook k =
      if k = child then some (c.nextId + 1) else c.hook k := by
  split
  case isTrue same =>
    rw [same, hook, tables_hooked, OrderedMap.get?_map, there, Option.map_some, if_pos rfl]
    rfl
  case isFalse other => exact hook_map tables_hooked fun t _ => by rw [if_neg other]

theorem groupOf_hooked : (c.hooked parent child columns).groupOf k = c.groupOf k :=
  groupOf_map tables_hooked fun t _ => by split <;> rfl

theorem Numbered.hooked (h : c.Numbered) : (c.hooked parent child columns).Numbered where
  tables := (h.tables.mono (Nat.le_succ _)).modify fun _ => rfl
  joins := (h.joins.mono (Nat.le_succ _)).insert rfl (Nat.le_refl _)
  groups := h.groups.mono (Nat.le_succ _)
  sequences := h.sequences.mono (Nat.le_succ _)

theorem Linked.hooked (h : c.Linked) (numbered : c.Numbered) (off : c.hook child = none)
    (below : c.tables.get? child = some t) (above : c.tables.get? parent = some p) :
    (c.hooked parent child columns).Linked where
  parent i j there := by
    apply (exists_map tables_hooked).2
    rw [get?_joins_hooked] at there
    split at there
    · cases there; exact ⟨p, above⟩
    · exact h.parent there
  hook_iff k i := by
    rw [hook_hooked below, get?_joins_hooked]
    have fresh : c.joins.get? (c.nextId + 1) = none := numbered.joins.fresh (Nat.lt_succ_self _)
    by_cases new : i = c.nextId + 1
    · subst new
      rw [if_pos rfl]
      split
      case isTrue same => exact iff_of_true rfl ⟨_, rfl, same.symm⟩
      case isFalse other =>
        refine iff_of_false (fun hung => ?_) ?_
        · obtain ⟨j, there, _⟩ := (h.hook_iff _ _).1 hung
          rw [fresh] at there
          cases there
        · rintro ⟨_, ⟨⟩, same⟩
          exact other same.symm
    · rw [if_neg new, ← h.hook_iff]
      split
      case isTrue same =>
        rw [same, off]
        exact iff_of_false (fun eq => new (Option.some.inj eq).symm) nofun
      case isFalse => rfl

theorem hangs_hooked (numbered : c.Numbered) {a b : TableId} :
    (c.hooked parent child columns).Hangs a b ↔ c.Hangs a b ∨ (a = parent ∧ b = child) := by
  have fresh : c.joins.get? (c.nextId + 1) = none := numbered.joins.fresh (Nat.lt_succ_self _)
  simp only [Hangs, OrderedMap.mem_values_iff, get?_joins_hooked]
  constructor
  · rintro ⟨j, ⟨i, there⟩, rfl, rfl⟩
    split at there
    · cases there; exact .inr ⟨rfl, rfl⟩
    · exact .inl ⟨j, ⟨i, there⟩, rfl, rfl⟩
  · rintro (⟨j, ⟨i, there⟩, rfl, rfl⟩ | ⟨rfl, rfl⟩)
    · refine ⟨j, ⟨i, ?_⟩, rfl, rfl⟩
      rw [if_neg, there]
      rintro rfl
      rw [fresh] at there
      cases there
    · exact ⟨_, ⟨_, if_pos rfl⟩, rfl, rfl⟩

/-- A join that closes no circle puts nothing new below its child. -/
theorem mem_subtree_hooked (numbered : c.Numbered) (above : parent ∉ c.subtree child) :
    k ∈ (c.hooked parent child columns).subtree child ↔ k ∈ c.subtree child := by
  simp only [mem_subtree_iff] at above ⊢
  constructor
  · intro below
    induction below with
    | refl => exact .refl
    | tail _ hangs ih =>
      obtain hangs | ⟨rfl, _⟩ := (hangs_hooked numbered).1 hangs
      · exact ih.tail hangs
      · exact absurd ih above
  · apply Relation.ReflTransGen.mono
    intro _ _ hangs
    exact (hangs_hooked numbered).2 (.inl hangs)

/-- A way down that uses a new join leads to the parent first and on from the child. -/
theorem below_of_hooked (numbered : c.Numbered) (above : parent ∉ c.subtree child) {a b : TableId}
    (way : Relation.TransGen (c.hooked parent child columns).Hangs a b) :
    Relation.TransGen c.Hangs a b ∨ c.Below a parent ∧ c.Below child b := by
  induction way with
  | single hangs =>
    obtain hangs | ⟨rfl, rfl⟩ := (hangs_hooked numbered).1 hangs
    · exact .inl (.single hangs)
    · exact .inr ⟨.refl, .refl⟩
  | tail _ hangs ih =>
    obtain hangs | ⟨rfl, rfl⟩ := (hangs_hooked numbered).1 hangs
    · exact ih.imp (fun way => way.tail hangs) fun ⟨first, last⟩ => ⟨first, last.tail hangs⟩
    · obtain way | ⟨_, last⟩ := ih
      · exact .inr ⟨way.to_reflTransGen, .refl⟩
      · exact absurd (mem_subtree_iff.2 last) above

@[simp] theorem bodies_joined : (c.joined parent child columns).bodies = c.bodies := by
  rw [joined, bodies_inGroup]
  exact bodies_editing_of_same fun _ => rfl

@[simp] theorem sequences_joined : (c.joined parent child columns).sequences = c.sequences := rfl

@[simp] theorem nextId_joined : (c.joined parent child columns).nextId = c.nextId + 1 := rfl

theorem get?_joins_joined : (c.joined parent child columns).joins.get? i =
    if i = c.nextId + 1 then some { id := c.nextId + 1, parent, child, columns }
    else c.joins.get? i :=
  get?_joins_hooked

/-- The new join comes last. -/
theorem joins_joined (numbered : c.Numbered) :
    (c.joined parent child columns).joins.values =
      c.joins.values ++ [{ id := c.nextId + 1, parent, child, columns }] := by
  have fresh : c.joins.get? (c.nextId + 1) = none := numbered.joins.fresh (Nat.lt_succ_self _)
  change (c.joins.insert _ _).values = _
  rw [OrderedMap.insert_of_fresh fresh, OrderedMap.values_append]

theorem hook_joined (there : c.tables.get? child = some t) :
    (c.joined parent child columns).hook k =
      if k = child then some (c.nextId + 1) else c.hook k := by
  rw [joined, hook_inGroup, hook_hooked there]

/-- Joining keeps a catalog intact, also one in which the child and what is below it were in
other groups than they should be. -/
theorem intact_joined (numbered : c.Numbered) (linked : c.Linked)
    (below : c.tables.get? child = some t) (above : c.tables.get? parent = some p)
    (off : c.hook child = none) (acyclic : parent ∉ c.subtree child)
    (outside : ∀ ⦃i j⦄, c.joins.get? i = some j → j.parent ∉ c.subtree child →
      c.groupOf j.child = c.groupOf j.parent) :
    (c.joined parent child columns).Intact := by
  have linked' : (c.hooked parent child columns).Linked := linked.hooked numbered off below above
  refine { numbered.hooked.inGroup, linked'.inGroup with
    shared := linked'.shared_inGroup (fun i j there same => ?_) fun i j there other far => ?_ }
  · have new : i = c.nextId + 1 := by
      have hung := linked'.hook_child there
      rw [same, hook_hooked below, if_pos rfl] at hung
      exact (Option.some.inj hung).symm
    rw [get?_joins_hooked, if_pos new] at there
    cases there
    exact ⟨fun inside => acyclic ((mem_subtree_hooked numbered acyclic).1 inside), groupOf_hooked⟩
  · rw [mem_subtree_hooked numbered acyclic] at far
    rw [groupOf_hooked, groupOf_hooked]
    rw [get?_joins_hooked] at there
    split at there
    · cases there; exact absurd rfl other
    · exact outside there far

theorem Intact.joined (h : c.Intact) (below : c.tables.get? child = some t)
    (above : c.tables.get? parent = some p) (off : c.hook child = none)
    (acyclic : parent ∉ c.subtree child) : (c.joined parent child columns).Intact :=
  intact_joined h.toNumbered h.toLinked below above off acyclic fun _ _ there _ => h.shared there

/-- A join under a table that is not below its child closes no circle. -/
theorem Acyclic.joined (h : c.Acyclic) (numbered : c.Numbered) (above : parent ∉ c.subtree child) :
    (c.joined parent child columns).Acyclic := by
  intro x circle
  obtain circle | ⟨first, last⟩ := below_of_hooked numbered above circle
  · exact h x circle
  · exact above (mem_subtree_iff.2 (last.trans first))

/-- The catalog with other pairs of columns in a join. -/
def repaired (c : Catalog) (i : JoinId) (columns : List JoinColumn) : Catalog :=
  { c with joins := c.joins.modify i ({ · with columns }) }

theorem get?_joins_repaired : (c.repaired i columns).joins.get? x =
    if x = i then (c.joins.get? x).map ({ · with columns }) else c.joins.get? x :=
  OrderedMap.get?_modify ..

/-- Other pairs leave a join between the tables it is between. -/
theorem exists_join_repaired (there : (c.repaired i columns).joins.get? x = some j) :
    ∃ j', c.joins.get? x = some j' ∧ j'.parent = j.parent ∧ j'.child = j.child := by
  rw [get?_joins_repaired] at there
  split at there
  · obtain ⟨j', there', rfl⟩ := Option.map_eq_some_iff.1 there
    exact ⟨j', there', rfl, rfl⟩
  · exact ⟨j, there, rfl, rfl⟩

theorem hangs_repaired {a b : TableId} : (c.repaired i columns).Hangs a b ↔ c.Hangs a b := by
  simp only [hangs_iff]
  constructor
  · rintro ⟨x, j, there, rfl, rfl⟩
    obtain ⟨j', there', above, below⟩ := exists_join_repaired there
    exact ⟨x, j', there', above, below⟩
  · rintro ⟨x, j, there, rfl, rfl⟩
    by_cases same : x = i
    · refine ⟨x, { j with columns }, ?_, rfl, rfl⟩
      rw [get?_joins_repaired, if_pos same, there, Option.map_some]
    · exact ⟨x, j, by rw [get?_joins_repaired, if_neg same, there], rfl, rfl⟩

theorem Linked.repaired (h : c.Linked) : (c.repaired i columns).Linked := by
  refine ⟨fun k x => (h.hook_iff k x).trans ⟨?_, ?_⟩, ?_⟩
  · rintro ⟨j, there, below⟩
    by_cases same : x = i
    · refine ⟨{ j with columns }, ?_, below⟩
      rw [get?_joins_repaired, if_pos same, there, Option.map_some]
    · exact ⟨j, by rw [get?_joins_repaired, if_neg same, there], below⟩
  · rintro ⟨j, there, below⟩
    obtain ⟨j', there', _, same⟩ := exists_join_repaired there
    exact ⟨j', there', same.trans below⟩
  · intro x j there
    obtain ⟨j', there', same, _⟩ := exists_join_repaired there
    exact same ▸ h.parent there'

theorem Intact.repaired (h : c.Intact) : (c.repaired i columns).Intact := by
  have linked : (c.repaired i columns).Linked := h.toLinked.repaired
  refine { linked, h with joins := h.joins.modify fun _ => rfl, shared := ?_ }
  intro x j there
  obtain ⟨j', there', above, below⟩ := exists_join_repaired there
  have grouped := h.shared there'
  rw [above, below] at grouped
  exact grouped

/-- A pair is checked for the types of its columns only. -/
theorem checkPair_eq_ok {pair : JoinColumn} : checkPair p t pair = .ok () ↔
    ∃ above ∈ p.typeOf? pair.parent, ∃ below ∈ t.typeOf? pair.child,
      below.compatible above = true := by
  unfold checkPair Table.typeOf?
  cases p.column? pair.parent with
  | none => simp
  | some a =>
    cases t.column? pair.child with
    | none => simp
    | some b =>
      cases fits : b.descriptor.compatible a.descriptor <;> simp [fits]

theorem limits_checkPair {P : Fault → Prop} (missing : ∀ name, P (.noSuchColumn name))
    (apart : ∀ child childType parent parentType, P (.joinTypes child childType parent parentType))
    (pair : JoinColumn) : Check.Limits P (checkPair p t pair) := by
  unfold checkPair
  split
  · exact Check.limits_error (missing _)
  · exact Check.limits_error (missing _)
  · exact .ite (fun _ => Check.limits_ok _) fun _ => Check.limits_error (apart ..)

theorem foresees_checkPair (pair : JoinColumn) : Check.Foresees (checkPair p t pair) :=
  limits_checkPair (fun _ => trivial) (fun _ _ _ _ => trivial) pair

theorem foresees_checkJoin : Check.Foresees (checkJoin p t columns) := by
  unfold checkJoin
  refine Check.Limits.ite (fun _ => Check.limits_error trivial) fun _ => ?_
  refine Check.Limits.ite (fun _ => Check.limits_error trivial) fun _ => ?_
  exact Check.Limits.forM fun pair _ => foresees_checkPair pair

/-- There are as many pairs of columns as a join under the table has to have. -/
def Wide (parent : Table) (columns : List JoinColumn) : Prop :=
  columns ≠ [] ∧ columns.length = joinWidth parent columns.length

theorem wide_congr {u : Table} (same : u.indexes = p.indexes) :
    Wide u columns ↔ Wide p columns := by
  rw [Wide, Wide, joinWidth, joinWidth, Table.primaryKey?, Table.primaryKey?, Table.index?,
    Table.index?, same]

theorem checkJoin_eq_ok : checkJoin p t columns = .ok () ↔
    t.parentJoin = none ∧ Wide p columns ∧ ∀ pair ∈ columns, checkPair p t pair = .ok () := by
  rw [← Check.forM_eq_ok]
  cases root : t.parentJoin with
  | some i =>
    unfold checkJoin
    rw [if_pos (by simp [root])]
    exact iff_of_false nofun nofun
  | none =>
    unfold checkJoin
    rw [if_neg (by simp [root])]
    dsimp only
    split
    case isTrue narrow =>
      apply iff_of_false nofun
      rintro ⟨_, ⟨filled, wide⟩, _⟩
      simp [filled, ← wide] at narrow
    case isFalse wide =>
      have wide : Wide p columns := by simpa [Wide] using wide
      constructor
      · intro passed
        exact ⟨rfl, wide, passed⟩
      · rintro ⟨_, _, passed⟩
        exact passed

/-- Joining existing tables either closes no circle and gives the child its first parent, or
it is refused for a reason that is foreseen. -/
theorem wp_addJoin {post : JoinId → Catalog → Prop} {fails : Fault → Catalog → Prop}
    (numbered : c.Numbered) (linked : c.Linked) (above : c.tables.get? parent = some p)
    (below : c.tables.get? child = some t)
    (refused : ∀ f, f.Foreseen →
      ¬ (checkJoin p t columns = .ok () ∧ parent ∉ c.subtree child) → fails f c)
    (ok : checkJoin p t columns = .ok () → parent ∉ c.subtree child →
      post (c.nextId + 1) (c.joined parent child columns)) :
    WP (addJoin parent child columns) post fails c := by
  unfold addJoin
  simp only [wp_bind, wp_get, wp_lift_of_ok (table_of_get? above),
    wp_lift_of_ok (table_of_get? below), wp_lift]
  refine ⟨fun _ passed => ?_, fun f failed => refused f (foresees_checkJoin f failed) ?_⟩
  case refine_2 =>
    rintro ⟨passed, _⟩
    cases failed.symm.trans passed
  have off : c.hook child = none := (hook_of_get? below).trans (checkJoin_eq_ok.1 passed).1
  rw [wp_ite]
  refine ⟨fun circle => refused _ trivial ?_, fun acyclic => ?_⟩
  case refine_1 =>
    rintro ⟨_, acyclic⟩
    rw [Bool.or_eq_true, beq_iff_eq, List.contains_iff_mem] at circle
    obtain rfl | circle := circle
    · exact acyclic self_mem_subtree
    · exact acyclic circle
  rw [Bool.or_eq_true, not_or, List.contains_iff_mem] at acyclic
  simp only [allocateId, wp_bind, wp_modifyGet, wp_modify]
  rw [wp_of_ok (editTable_eq (by exact below)), wp_bind, wp_of_ok (assignGroup_eq ?_), wp_pure,
    ← groupOf_of_get? above]
  · exact ok passed acyclic.2
  · intro k inside
    have linked' : (c.hooked parent child columns).Linked := linked.hooked numbered off below above
    exact linked'.exists_of_mem_subtree ((exists_map tables_hooked).2 ⟨t, below⟩) inside

end GroupedTables.Catalog
