import GroupedTables.Proofs.Catalog.Joining

/-!
# Joins that follow renamed columns

When the columns of a table get other names, the joins that touch it are followed one at a time. A
join whose columns are all still there only gets their names on the side of the table; one that
lost a column is taken off its child. Each join is looked at once, so what becomes of all of them
is a filter and a map.
-/

namespace GroupedTables

namespace Join

variable {rename : String → Option String}

def touches (j : Join) (x : TableId) : Bool := j.child == x || j.parent == x

/-- Whether the columns of a join on the side of a table are all still there. -/
def survives (j : Join) (x : TableId) (rename : String → Option String) : Bool :=
  j.columns.all fun pair => (rename (pair.name (j.child == x))).isSome

/-- A join with the columns on the side of a table by their new names. -/
def followed (j : Join) (x : TableId) (rename : String → Option String) : Join :=
  { j with columns := j.columns.map (·.renamed (j.child == x) rename) }

end Join

namespace Catalog

open GroupedTables.Action

variable {c : Catalog} {x k : TableId} {rename : String → Option String} {i : JoinId} {j : Join}

def followedAt (c : Catalog) (x : TableId) (rename : String → Option String) (i : JoinId) :
    Catalog :=
  match c.joins.get? i with
  | none => c
  | some j =>
    let paired := c.repaired i (j.followed x rename).columns
    if j.survives x rename then paired else paired.detached j.child

theorem followedAt_of_missing (missing : c.joins.get? i = none) :
    c.followedAt x rename i = c := by
  rw [followedAt, missing]

theorem followedAt_of_survives (there : c.joins.get? i = some j)
    (survives : j.survives x rename = true) :
    c.followedAt x rename i = c.repaired i (j.followed x rename).columns := by
  rw [followedAt, there]
  exact if_pos survives

theorem followedAt_of_lost (there : c.joins.get? i = some j)
    (lost : j.survives x rename = false) :
    c.followedAt x rename i = (c.repaired i (j.followed x rename).columns).detached j.child := by
  rw [followedAt, there]
  exact if_neg (Bool.eq_false_iff.1 lost)

/-- A join gets other pairs of columns, and may then be taken off its child. -/
theorem followedAt_eq (c : Catalog) (x : TableId) (rename : String → Option String) (i : JoinId) :
    c.followedAt x rename i = c ∨ ∃ columns,
    c.followedAt x rename i = c.repaired i columns ∨
      ∃ k, c.followedAt x rename i = (c.repaired i columns).detached k := by
  cases there : c.joins.get? i with
  | none => exact .inl (followedAt_of_missing there)
  | some j =>
    refine .inr ⟨(j.followed x rename).columns, ?_⟩
    cases survives : j.survives x rename with
    | true => exact .inl (followedAt_of_survives there survives)
    | false => exact .inr ⟨j.child, followedAt_of_lost there survives⟩

theorem Linked.followedAt (h : c.Linked) : (c.followedAt x rename i).Linked := by
  obtain same | ⟨columns, same | ⟨k, same⟩⟩ := followedAt_eq c x rename i
  · rwa [same]
  · rw [same]
    exact h.repaired
  · rw [same]
    exact h.repaired.detached

theorem Intact.followedAt (h : c.Intact) : (c.followedAt x rename i).Intact := by
  obtain same | ⟨columns, same | ⟨k, same⟩⟩ := followedAt_eq c x rename i
  · rwa [same]
  · rw [same]
    exact h.repaired
  · rw [same]
    exact h.repaired.detached

/-- What is listed once a join has been followed: a join that lost a column. -/
def lostAt (c : Catalog) (x : TableId) (rename : String → Option String) (i : JoinId) :
    Option Join :=
  ((c.joins.get? i).filter fun j => !j.survives x rename).map (·.followed x rename)

/-- Following a join never fails. -/
theorem remapJoin_eq (h : c.Linked) :
    remapJoin x rename i c = .ok (c.lostAt x rename i) (c.followedAt x rename i) := by
  apply eq_ok_of_wp
  unfold remapJoin
  simp only [wp_bind, wp_get]
  cases there : c.joins.get? i with
  | none =>
    rw [followedAt_of_missing there, lostAt, there]
    exact ⟨rfl, rfl⟩
  | some j =>
    simp only [wp_bind, wp_modify, wp_ite]
    constructor
    · intro survives
      have kept : j.survives x rename = true := survives
      rw [followedAt_of_survives there kept, lostAt, there, Option.filter_some, kept]
      exact ⟨rfl, rfl⟩
    · intro lost
      have lost : j.survives x rename = false := Bool.eq_false_iff.2 lost
      obtain ⟨t, below, _⟩ := h.child there
      have paired : (c.repaired i (j.followed x rename).columns).Linked := h.repaired
      have again : (c.repaired i (j.followed x rename).columns).joins.get? i =
          some (j.followed x rename) := by
        rw [get?_joins_repaired, if_pos rfl, there, Option.map_some]
        rfl
      rw [followedAt_of_lost there lost, lostAt, there, Option.filter_some, lost]
      refine (wp_of_ok (clearParentJoin_eq paired (t := t) below)).2 ⟨?_, rfl⟩
      have hung := paired.hook_child again
      change (c.repaired i (j.followed x rename).columns).hook j.child = some i at hung
      rw [hung, Option.bind_some, again]
      rfl

theorem wp_remapJoin {post : Option Join → Catalog → Prop}
    {fails : Fault → Catalog → Prop} (h : c.Linked)
    (ok : post (c.lostAt x rename i) (c.followedAt x rename i)) :
    WP (remapJoin x rename i) post fails c :=
  (wp_of_ok (remapJoin_eq h)).2 ok

theorem joins_repaired_followed (there : c.joins.get? i = some j) :
    (c.repaired i (j.followed x rename).columns).joins =
      c.joins.map fun k j => if k = i then j.followed x rename else j := by
  simp only [repaired, OrderedMap.modify]
  apply OrderedMap.map_congr
  intro k j' there'
  split
  case isTrue same =>
    subst same
    cases there.symm.trans there'
    rfl
  case isFalse => rfl

/-- One join is followed, or it is gone. -/
theorem joins_followedAt (h : c.Linked) : (c.followedAt x rename i).joins =
    (c.joins.filter fun k j => k != i || j.survives x rename).map fun k j =>
      if k = i then j.followed x rename else j := by
  cases there : c.joins.get? i with
  | none =>
    have other ⦃k : JoinId⦄ ⦃j : Join⦄ (there' : c.joins.get? k = some j) : k ≠ i := by
      rintro rfl
      cases there.symm.trans there'
    rw [followedAt_of_missing there, OrderedMap.filter_eq_self, OrderedMap.map_eq_self]
    · exact fun k j there' => if_neg (other there')
    · exact fun k j there' => by rw [bne_iff_ne.2 (other there'), Bool.true_or]
  | some j =>
    cases survives : j.survives x rename with
    | true =>
      rw [followedAt_of_survives there survives, joins_repaired_followed there,
        OrderedMap.filter_eq_self]
      intro k j' there'
      by_cases same : k = i
      · subst same
        cases there.symm.trans there'
        rw [survives, Bool.or_true]
      · rw [bne_iff_ne.2 same, Bool.true_or]
    | false =>
      have paired : (c.repaired i (j.followed x rename).columns).Linked := h.repaired
      rw [followedAt_of_lost there survives, joins_detached paired,
        joins_repaired_followed there, OrderedMap.filter_map]
      · congr 1
        apply OrderedMap.filter_congr
        intro k j' there'
        by_cases same : k = i
        · subst same
          cases there.symm.trans there'
          simp [survives]
        · have apart : j'.child ≠ j.child := fun equal =>
            same (h.join_unique there' there equal).1
          rw [bne_iff_ne.2 apart, bne_iff_ne.2 same, Bool.true_or]
      · intro k j'
        split <;> rfl

def touching (c : Catalog) (x : TableId) : List JoinId :=
  (c.joins.values.filter (·.touches x)).map (·.id)

/-- The catalog once all joins that touch a table have been followed. -/
def following (c : Catalog) (x : TableId) (rename : String → Option String) : Catalog :=
  (c.touching x).foldl (fun c i => c.followedAt x rename i) c

theorem Linked.foldl_followedAt (h : c.Linked) (joins : List JoinId) :
    (joins.foldl (fun c i => c.followedAt x rename i) c).Linked := by
  induction joins generalizing c with
  | nil => exact h
  | cons i rest ih => exact ih h.followedAt

theorem Intact.foldl_followedAt (h : c.Intact) (joins : List JoinId) :
    (joins.foldl (fun c i => c.followedAt x rename i) c).Intact := by
  induction joins generalizing c with
  | nil => exact h
  | cons i rest ih => exact ih h.followedAt

theorem Linked.following (h : c.Linked) : (c.following x rename).Linked := h.foldl_followedAt _

theorem Intact.following (h : c.Intact) : (c.following x rename).Intact := h.foldl_followedAt _

@[simp] theorem bodies_followedAt : (c.followedAt x rename i).bodies = c.bodies := by
  obtain same | ⟨columns, same | ⟨k, same⟩⟩ := followedAt_eq c x rename i
  · rw [same]
  · rw [same]
    rfl
  · rw [same, bodies_detached]
    rfl

@[simp] theorem bodies_following : (c.following x rename).bodies = c.bodies :=
  foldl_keeps bodies (fun _ _ => bodies_followedAt) _

@[simp] theorem sequences_followedAt : (c.followedAt x rename i).sequences = c.sequences := by
  obtain same | ⟨columns, same | ⟨k, same⟩⟩ := followedAt_eq c x rename i
  · rw [same]
  · rw [same]
    rfl
  · rw [same, sequences_detached]
    rfl

@[simp] theorem sequences_following : (c.following x rename).sequences = c.sequences :=
  foldl_keeps sequences (fun _ _ => sequences_followedAt) _

@[simp] theorem groups_followedAt : (c.followedAt x rename i).groups = c.groups := by
  obtain same | ⟨columns, same | ⟨k, same⟩⟩ := followedAt_eq c x rename i
  · rw [same]
  · rw [same]
    rfl
  · rw [same, groups_detached]
    rfl

@[simp] theorem groups_following : (c.following x rename).groups = c.groups :=
  foldl_keeps groups (fun _ _ => groups_followedAt) _

@[simp] theorem nextId_followedAt : (c.followedAt x rename i).nextId = c.nextId := by
  obtain same | ⟨columns, same | ⟨k, same⟩⟩ := followedAt_eq c x rename i
  · rw [same]
  · rw [same]
    rfl
  · rw [same, nextId_detached]
    rfl

@[simp] theorem nextId_following : (c.following x rename).nextId = c.nextId :=
  foldl_keeps nextId (fun _ _ => nextId_followedAt) _

/-- Following the joins that touch a table never fails. -/
theorem wp_remapJoinColumns {post : List Join → Catalog → Prop} {fails : Fault → Catalog → Prop}
    (h : c.Linked) (ok : ∀ lost, post lost (c.following x rename)) :
    WP (remapJoinColumns x rename) post fails c := by
  unfold remapJoinColumns
  simp only [wp_bind, wp_get]
  -- what is left to be followed leads on to the same catalog
  refine wp_mapM (fun rest c' => c'.Linked ∧
      rest.foldl (fun c i => c.followedAt x rename i) c' = c.following x rename) ⟨h, rfl⟩ ?_ ?_
  · rintro values c' ⟨_, rfl⟩
    exact ok _
  · rintro i rest c' ⟨linked, ahead⟩
    exact wp_remapJoin linked ⟨linked.followedAt, ahead⟩

theorem joins_foldl_followedAt (h : c.Linked) {joins : List JoinId} (distinct : joins.Nodup) :
    (joins.foldl (fun c i => c.followedAt x rename i) c).joins =
      (c.joins.filter fun k j => !joins.contains k || j.survives x rename).map fun k j =>
        if joins.contains k then j.followed x rename else j := by
  induction joins generalizing c with
  | nil =>
    have all : (c.joins.filter fun k j => !List.contains [] k || j.survives x rename) = c.joins :=
      OrderedMap.filter_eq_self fun _ _ _ => rfl
    rw [all]
    exact (OrderedMap.map_eq_self fun _ _ _ => rfl).symm
  | cons i rest ih =>
    obtain ⟨first, distinct⟩ := List.nodup_cons.1 distinct
    rw [List.foldl_cons, ih h.followedAt distinct, joins_followedAt h, OrderedMap.filter_map,
      OrderedMap.filter_filter, OrderedMap.map_map]
    · congr 1
      · apply OrderedMap.filter_congr
        intro k j _
        by_cases same : k = i
        · subst same
          simp [first]
        · simp [same]
      · funext k j
        by_cases same : k = i
        · subst same
          simp [first]
        · simp [same]
    · intro k j
      by_cases same : k = i
      · subst same
        simp [first]
      · rw [if_neg same]

theorem contains_touching (h : c.Addressed) (there : c.joins.get? i = some j) :
    (c.touching x).contains i = j.touches x := by
  rw [Bool.eq_iff_iff, List.contains_iff_mem, touching, List.mem_map]
  constructor
  · rintro ⟨j', inside, named⟩
    obtain ⟨inside, touches⟩ := List.mem_filter.1 inside
    obtain ⟨k, there'⟩ := OrderedMap.mem_values_iff.1 inside
    rw [← h.joins there', named] at there'
    cases there.symm.trans there'
    exact touches
  · intro touches
    exact ⟨j, List.mem_filter.2 ⟨OrderedMap.mem_values there, touches⟩, h.joins there⟩

theorem nodup_touching (h : c.Addressed) : (c.touching x).Nodup :=
  (OrderedMap.nodup_numbers h.joins).sublist (List.filter_sublist.map _)

/-- A join that touches the table is followed if it lost no column, and gone if it did; any other
stays as it is. -/
theorem joins_following (addressed : c.Addressed) (linked : c.Linked) :
    (c.following x rename).joins =
      (c.joins.filter fun _ j => !j.touches x || j.survives x rename).map fun _ j =>
        if j.touches x then j.followed x rename else j := by
  rw [following, joins_foldl_followedAt linked (nodup_touching addressed)]
  rw [OrderedMap.filter_congr fun i j there => by rw [contains_touching addressed there]]
  apply OrderedMap.map_congr
  intro i j there
  rw [OrderedMap.get?_filter, Option.filter_eq_some_iff] at there
  rw [contains_touching addressed there.1]

/-- If no column is lost, the joins are all that changes. -/
theorem following_of_total (h : c.Intact) (total : ∀ name, (rename name).isSome) :
    c.following x rename = { c with
      joins := c.joins.map fun _ j => if j.touches x then j.followed x rename else j } := by
  have survives (j : Join) : j.survives x rename = true :=
    List.all_eq_true.2 fun _ _ => total _
  have rest (joins : List JoinId) (c : Catalog) :
      { joins.foldl (fun c i => c.followedAt x rename i) c with joins := c.joins } = c := by
    induction joins generalizing c with
    | nil => rfl
    | cons i others ih =>
      have one : { c.followedAt x rename i with joins := c.joins } = c := by
        cases there : c.joins.get? i with
        | none => rw [followedAt_of_missing there]
        | some j => rw [followedAt_of_survives there (survives j)]; rfl
      have all := ih (c.followedAt x rename i)
      rw [List.foldl_cons]
      calc { others.foldl (fun c i => c.followedAt x rename i) (c.followedAt x rename i) with
              joins := c.joins }
          = { ({ others.foldl (fun c i => c.followedAt x rename i) (c.followedAt x rename i) with
                joins := (c.followedAt x rename i).joins } : Catalog) with joins := c.joins } := rfl
        _ = { c.followedAt x rename i with joins := c.joins } := by rw [all]
        _ = c := one
  have joins : (c.following x rename).joins = _ :=
    joins_following h.toNumbered.addressed h.toLinked
  rw [OrderedMap.filter_eq_self fun _ j _ => by rw [survives j, Bool.or_true]] at joins
  rw [← joins]
  calc c.following x rename
      = { ({ c.following x rename with joins := c.joins } : Catalog) with
          joins := (c.following x rename).joins } := rfl
    _ = { c with joins := (c.following x rename).joins } := by
      rw [following, rest]

end Catalog

end GroupedTables
