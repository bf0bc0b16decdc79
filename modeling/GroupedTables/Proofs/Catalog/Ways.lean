import GroupedTables.Proofs.Action
import GroupedTables.Proofs.Catalog.Subtree
import Mathlib.Data.Finset.Card
import Mathlib.Data.Fintype.Pigeonhole
import Mathlib.Logic.Function.Iterate

/-!
# Ways up and down in any catalog

Nothing is asked of the catalog here: tables may be missing, joins may lead nowhere or round in a
circle. The way up is one chain that ends at a table that names no join, breaks off where something
is missing, or goes on for ever, and the counted walk tells these apart: whoever takes more steps
than there are tables has met one of them twice, and goes round for ever. The way down is a list
that grows while it is gone through. It is gone through to its end, because each table is listed
once, and a table other than the first is listed only behind one that it hangs under.
-/

namespace GroupedTables.Catalog

open Check Relation

variable {c : Catalog} {k x y above root start : TableId} {steps n : Nat}

/-- A table names a join that leads to another table, which may be missing. -/
def LeadsTo (c : Catalog) (k above : TableId) : Prop :=
  ∃ t i j, c.tables.get? k = some t ∧ t.parentJoin = some i ∧ c.joins.get? i = some j ∧
    j.parent = above

/-- A table is there and names no join. -/
def IsTop (c : Catalog) (k : TableId) : Prop :=
  ∃ t, c.tables.get? k = some t ∧ t.parentJoin = none

/-- A table is missing, or the join it names is. -/
def BreaksOff (c : Catalog) (k : TableId) : Prop :=
  c.tables.get? k = none ∨
    ∃ t i, c.tables.get? k = some t ∧ t.parentJoin = some i ∧ c.joins.get? i = none

/-- The way up goes on for ever. -/
def Endless (c : Catalog) (k : TableId) : Prop :=
  ∃ way : Nat → TableId, way 0 = k ∧ ∀ n, c.LeadsTo (way n) (way (n + 1))

theorem IsTop.parent_eq (h : c.IsTop k) : c.parent k = .ok none := by
  obtain ⟨t, there, named⟩ := h
  simp only [Catalog.parent, parentJoin, table, there, present, named, bind, Except.bind, pure,
    Except.pure, Option.map_none]

theorem LeadsTo.parent_eq (h : c.LeadsTo k above) : c.parent k = .ok (some above) := by
  obtain ⟨t, i, j, there, named, joined, rfl⟩ := h
  simp only [Catalog.parent, parentJoin, table, there, join, joined, present, named, bind,
    Except.bind, pure, Except.pure, Option.map_some]

theorem BreaksOff.exists_parent_eq (h : c.BreaksOff k) :
    ∃ breach, c.parent k = .error (.internal breach) := by
  obtain missing | ⟨t, i, there, named, missing⟩ := h
  · refine ⟨.missingTable k, ?_⟩
    simp only [Catalog.parent, parentJoin, table, missing, present, bind, Except.bind]
  · refine ⟨.missingJoin i, ?_⟩
    simp only [Catalog.parent, parentJoin, table, there, join, missing, present, named, bind,
      Except.bind]

/-- There is no fourth case. -/
theorem isTop_or_leadsTo_or_breaksOff (c : Catalog) (k : TableId) :
    c.IsTop k ∨ (∃ above, c.LeadsTo k above) ∨ c.BreaksOff k := by
  unfold IsTop LeadsTo BreaksOff
  cases there : c.tables.get? k with
  | none => exact .inr (.inr (.inl rfl))
  | some t =>
    cases named : t.parentJoin with
    | none => exact .inl ⟨t, rfl, named⟩
    | some i =>
      cases joined : c.joins.get? i with
      | none => exact .inr (.inr (.inr ⟨t, i, rfl, named, joined⟩))
      | some j => exact .inr (.inl ⟨j.parent, t, i, j, rfl, named, joined, rfl⟩)

theorem parent_eq_some_iff : c.parent k = .ok (some above) ↔ c.LeadsTo k above := by
  refine ⟨fun found => ?_, LeadsTo.parent_eq⟩
  obtain top | ⟨above', up⟩ | broken := c.isTop_or_leadsTo_or_breaksOff k
  · cases top.parent_eq.symm.trans found
  · cases up.parent_eq.symm.trans found
    exact up
  · obtain ⟨breach, failed⟩ := broken.exists_parent_eq
    cases failed.symm.trans found

theorem rightUnique_leadsTo : Relator.RightUnique c.LeadsTo := by
  intro k a b up up'
  exact Option.some_injective _ (Except.ok.inj (up.parent_eq.symm.trans up'.parent_eq))

theorem IsTop.not_leadsTo (h : c.IsTop k) : ¬c.LeadsTo k above := by
  intro up
  cases h.parent_eq.symm.trans up.parent_eq

theorem BreaksOff.not_leadsTo (h : c.BreaksOff k) : ¬c.LeadsTo k above := by
  intro up
  obtain ⟨breach, failed⟩ := h.exists_parent_eq
  cases failed.symm.trans up.parent_eq

theorem IsTop.not_breaksOff (h : c.IsTop k) : ¬c.BreaksOff k := by
  intro broken
  obtain ⟨breach, failed⟩ := broken.exists_parent_eq
  cases failed.symm.trans h.parent_eq

/-- The way up from a table has one end at most. -/
theorem eq_of_ends (way : ReflTransGen c.LeadsTo k x) (way' : ReflTransGen c.LeadsTo k y)
    (ends : ∀ above, ¬c.LeadsTo x above) (ends' : ∀ above, ¬c.LeadsTo y above) : x = y := by
  obtain onwards | onwards := ReflTransGen.total_of_right_unique rightUnique_leadsTo way way'
  · obtain same | ⟨_, up, _⟩ := onwards.cases_head
    · exact same
    · exact absurd up (ends _)
  · obtain same | ⟨_, up, _⟩ := onwards.cases_head
    · exact same.symm
    · exact absurd up (ends' _)

theorem IsTop.not_breaksOff_above (h : c.IsTop x) (way : ReflTransGen c.LeadsTo k x)
    (way' : ReflTransGen c.LeadsTo k y) : ¬c.BreaksOff y := by
  intro broken
  obtain rfl := eq_of_ends way way' (fun _ => h.not_leadsTo) fun _ => broken.not_leadsTo
  exact h.not_breaksOff broken

/-- A way that goes on for ever goes on from every table on it. -/
theorem Endless.leadsTo (h : c.Endless k) (way : ReflTransGen c.LeadsTo k x) :
    ∃ above, c.LeadsTo x above := by
  obtain ⟨stages, first, up⟩ := h
  have met : ∃ n, stages n = x := by
    induction way with
    | refl => exact ⟨0, first⟩
    | tail _ up' ih =>
      obtain ⟨n, rfl⟩ := ih
      exact ⟨n + 1, rightUnique_leadsTo (up n) up'⟩
  obtain ⟨n, rfl⟩ := met
  exact ⟨_, up n⟩

/-- From a table on a circle the way up leads round the circle. -/
theorem circle_of_circle (circle : TransGen c.LeadsTo k k) (way : ReflTransGen c.LeadsTo k x) :
    TransGen c.LeadsTo x x := by
  induction way with
  | refl => exact circle
  | tail _ up ih =>
    obtain ⟨above, up', rest⟩ := TransGen.head'_iff.1 ih
    obtain rfl := rightUnique_leadsTo up up'
    exact .tail' rest up

/-- There are only so many tables, so a way that goes on for ever leads round a circle. -/
theorem Endless.exists_circle (h : c.Endless k) : ∃ x, TransGen c.LeadsTo x x := by
  obtain ⟨stages, -, up⟩ := h
  have known (n : Nat) : stages n ∈ c.tables.keys := by
    obtain ⟨t, _, _, there, _⟩ := up n
    exact OrderedMap.mem_keys_iff.2 ⟨t, there⟩
  obtain ⟨i, j, other, twice⟩ := Finite.exists_ne_map_eq_of_infinite
    fun n => (⟨stages n, known n⟩ : {x // x ∈ c.tables.keys})
  have twice : stages i = stages j := congrArg Subtype.val twice
  have onwards {m n : Nat} (before : m < n) (same : stages n = stages m) :
      ∃ x, TransGen c.LeadsTo x x := by
    have circle : TransGen c.LeadsTo (stages m) (stages n) :=
      Nat.rel_of_forall_rel_succ_of_lt _ (fun n => .single (up n)) before
    rw [same] at circle
    exact ⟨stages m, circle⟩
  obtain before | before := Nat.lt_or_gt_of_ne other
  · exact onwards before twice.symm
  · exact onwards before twice

/-- The table one step up, or the table itself where no step leads up. -/
def stepUp (c : Catalog) (k : TableId) : TableId :=
  match c.parent k with
  | .ok (some above) => above
  | _ => k

theorem stepUp_eq (up : c.LeadsTo k above) : c.stepUp k = above := by
  rw [stepUp, up.parent_eq]

/-- So many steps lead up from a table. -/
def Lasts (c : Catalog) (k : TableId) (n : Nat) : Prop :=
  ∀ i < n, c.LeadsTo (c.stepUp^[i] k) (c.stepUp^[i + 1] k)

theorem lasts_succ (up : c.LeadsTo k above) (h : c.Lasts above n) : c.Lasts k (n + 1) := by
  intro i before
  cases i with
  | zero =>
    show c.LeadsTo k (c.stepUp k)
    rwa [stepUp_eq up]
  | succ i =>
    rw [Function.iterate_succ_apply, Function.iterate_succ_apply, stepUp_eq up]
    exact h i (by omega)

theorem iterate_stepUp_succ (up : c.LeadsTo k above) (n : Nat) :
    c.stepUp^[n + 1] k = c.stepUp^[n] above := by
  rw [Function.iterate_succ_apply, stepUp_eq up]

/-- A walk that takes more steps than there are tables meets a table twice, and so it goes round
for ever. -/
theorem Lasts.endless (h : c.Lasts k (c.tables.size + 1)) : c.Endless k := by
  have known : ∀ i ∈ Finset.range (c.tables.size + 1), c.stepUp^[i] k ∈ c.tables.keys.toFinset := by
    intro i inside
    obtain ⟨t, _, _, there, _⟩ := h i (Finset.mem_range.1 inside)
    exact List.mem_toFinset.2 (OrderedMap.mem_keys_iff.2 ⟨t, there⟩)
  have fewer : c.tables.keys.toFinset.card < (Finset.range (c.tables.size + 1)).card := by
    rw [Finset.card_range]
    have bound : c.tables.keys.toFinset.card ≤ c.tables.keys.length := List.toFinset_card_le _
    simp only [OrderedMap.keys, List.length_map] at bound
    exact Nat.lt_succ_of_le bound
  obtain ⟨i, inside, j, inside', other, twice⟩ :=
    Finset.exists_ne_map_eq_of_card_lt_of_maps_to fewer known
  -- The first of the two meetings comes before the second one, and what follows them is the same.
  wlog first : i < j generalizing i j
  · exact this j inside' i inside other.symm twice.symm (by omega)
  refine ⟨fun n => c.stepUp^[n] k, rfl, fun n => ?_⟩
  induction n using Nat.strong_induction_on with
  | _ n earlier =>
    by_cases small : n < c.tables.size + 1
    · exact h n small
    · obtain ⟨m, rfl⟩ : ∃ m, n = m + j :=
        ⟨n - j, by have := Finset.mem_range.1 inside'; omega⟩
      have again (m : Nat) : c.stepUp^[m + j] k = c.stepUp^[m + i] k := by
        rw [Function.iterate_add_apply, Function.iterate_add_apply, twice]
      have step : c.LeadsTo (c.stepUp^[m + i] k) (c.stepUp^[m + i + 1] k) :=
        earlier (m + i) (by omega)
      show c.LeadsTo (c.stepUp^[m + j] k) (c.stepUp^[m + j + 1] k)
      rwa [Nat.add_right_comm, again, again, Nat.add_right_comm]

theorem IsTop.climb_eq (h : c.IsTop k) : c.climb start steps k = .ok k := by
  rw [climb, h.parent_eq]
  rfl

theorem LeadsTo.climb_zero_eq (h : c.LeadsTo k above) : c.climb start 0 k =
    (do throw (.joinCycle (← c.table start).name.text (← c.table above).name.text)) := by
  rw [climb, h.parent_eq]
  rfl

theorem LeadsTo.climb_succ_eq (h : c.LeadsTo k above) :
    c.climb start (steps + 1) k = c.climb start steps above := by
  rw [climb, h.parent_eq]
  rfl

theorem BreaksOff.exists_climb_eq (h : c.BreaksOff k) :
    ∃ breach, c.climb start steps k = .error (.internal breach) := by
  obtain ⟨breach, failed⟩ := h.exists_parent_eq
  refine ⟨breach, ?_⟩
  rw [climb, failed]
  rfl

/-- A counted walk ends at the top, where the way breaks off, or when it has taken one step more
than it counts. -/
theorem climb_cases (c : Catalog) (start : TableId) (steps : Nat) (k : TableId) :
    (∃ r, c.climb start steps k = .ok r ∧ ReflTransGen c.LeadsTo k r ∧ c.IsTop r) ∨
      (∃ x breach, c.climb start steps k = .error (.internal breach) ∧
        ReflTransGen c.LeadsTo k x ∧ c.BreaksOff x) ∨
      c.Lasts k (steps + 1) ∧
        c.climb start steps k =
          (do throw (.joinCycle (← c.table start).name.text
            (← c.table (c.stepUp^[steps + 1] k)).name.text)) := by
  induction steps generalizing k with
  | zero =>
    obtain top | ⟨above, up⟩ | broken := c.isTop_or_leadsTo_or_breaksOff k
    · exact .inl ⟨k, top.climb_eq, .refl, top⟩
    · refine .inr (.inr ⟨lasts_succ up nofun, ?_⟩)
      rw [up.climb_zero_eq, iterate_stepUp_succ up]
      rfl
    · obtain ⟨breach, failed⟩ := broken.exists_climb_eq
      exact .inr (.inl ⟨k, breach, failed, .refl, broken⟩)
  | succ steps ih =>
    obtain top | ⟨above, up⟩ | broken := c.isTop_or_leadsTo_or_breaksOff k
    · exact .inl ⟨k, top.climb_eq, .refl, top⟩
    · rw [up.climb_succ_eq, iterate_stepUp_succ up]
      obtain ⟨r, ended, way, top⟩ | ⟨x, breach, failed, way, broken⟩ | ⟨lasts, failed⟩ := ih above
      · exact .inl ⟨r, ended, way.head up, top⟩
      · exact .inr (.inl ⟨x, breach, failed, way.head up, broken⟩)
      · exact .inr (.inr ⟨lasts_succ up lasts, failed⟩)
    · obtain ⟨breach, failed⟩ := broken.exists_climb_eq
      exact .inr (.inl ⟨k, breach, failed, .refl, broken⟩)

/-- What is said of a circle is said of tables that are there. -/
theorem rootOf_cases (c : Catalog) (k : TableId) :
    (∃ r, c.rootOf k = .ok r ∧ ReflTransGen c.LeadsTo k r ∧ c.IsTop r) ∨
      (∃ x breach, c.rootOf k = .error (.internal breach) ∧
        ReflTransGen c.LeadsTo k x ∧ c.BreaksOff x) ∨
      ∃ child parent, c.rootOf k = .error (.joinCycle child parent) ∧ c.Endless k := by
  obtain ended | broken | ⟨lasts, failed⟩ := c.climb_cases k c.tables.size k
  · exact .inl ended
  · exact .inr (.inl broken)
  · have endless := lasts.endless
    have way (n : Nat) : n ≤ c.tables.size + 1 → ReflTransGen c.LeadsTo k (c.stepUp^[n] k) := by
      induction n with
      | zero => exact fun _ => .refl
      | succ n ih => exact fun bound => (ih (by omega)).tail (lasts n (by omega))
    obtain ⟨_, t, _, _, there, _⟩ := endless.leadsTo (way 0 (by omega))
    obtain ⟨_, u, _, _, there', _⟩ := endless.leadsTo (way (c.tables.size + 1) le_rfl)
    refine .inr (.inr ⟨t.name.text, u.name.text, ?_, endless⟩)
    have there : c.tables.get? k = some t := there
    simp only [rootOf, failed, table, there, there', present, bind, Except.bind]
    rfl

/-- The root that is found is where the way up ends. -/
theorem rootOf_eq_ok_iff_isTop :
    c.rootOf k = .ok root ↔ ReflTransGen c.LeadsTo k root ∧ c.IsTop root := by
  obtain ⟨r, ended, way, top⟩ | ⟨x, breach, failed, way, broken⟩ | ⟨_, _, failed, endless⟩ :=
    c.rootOf_cases k
  · rw [ended]
    constructor
    · rintro ⟨⟩
      exact ⟨way, top⟩
    · rintro ⟨way', top'⟩
      rw [eq_of_ends way way' (fun _ => top.not_leadsTo) fun _ => top'.not_leadsTo]
  · rw [failed]
    exact iff_of_false nofun fun ⟨way', top⟩ => top.not_breaksOff_above way' way broken
  · rw [failed]
    refine iff_of_false nofun fun ⟨way, top⟩ => ?_
    obtain ⟨above, up⟩ := endless.leadsTo way
    exact top.not_leadsTo up

/-- A circle is told just if the way up never ends. -/
theorem exists_joinCycle_iff :
    (∃ child parent, c.rootOf k = .error (.joinCycle child parent)) ↔ c.Endless k := by
  obtain ⟨r, ended, way, top⟩ | ⟨x, breach, failed, way, broken⟩ |
      ⟨child, parent, failed, endless⟩ :=
    c.rootOf_cases k
  · rw [ended]
    refine iff_of_false nofun fun endless => ?_
    obtain ⟨above, up⟩ := endless.leadsTo way
    exact top.not_leadsTo up
  · rw [failed]
    refine iff_of_false nofun fun endless => ?_
    obtain ⟨above, up⟩ := endless.leadsTo way
    exact broken.not_leadsTo up
  · exact iff_of_true ⟨child, parent, failed⟩ endless

/-- A breach is told just if the way up breaks off. -/
theorem exists_breach_iff : (∃ breach, c.rootOf k = .error (.internal breach)) ↔
    ∃ x, ReflTransGen c.LeadsTo k x ∧ c.BreaksOff x := by
  obtain ⟨r, ended, way, top⟩ | ⟨x, breach, failed, way, broken⟩ | ⟨_, _, failed, endless⟩ :=
    c.rootOf_cases k
  · rw [ended]
    exact iff_of_false nofun fun ⟨x, way', broken⟩ => top.not_breaksOff_above way way' broken
  · exact iff_of_true ⟨breach, failed⟩ ⟨x, way, broken⟩
  · rw [failed]
    refine iff_of_false nofun fun ⟨x, way, broken⟩ => ?_
    obtain ⟨above, up⟩ := endless.leadsTo way
    exact broken.not_leadsTo up

/-- The walk goes through one more of the listed tables, and lists those below it that are not
listed yet. -/
def ListsOn (c : Catalog) (walk walk' : List TableId × Nat) : Prop :=
  ∃ t, walk.1[walk.2]? = some t ∧ walk' = (listOnce walk.1 (c.children t), walk.2 + 1)

/-- Every listed table but the first one has a table in front of it that it hangs under. -/
def ParentsFirst (c : Catalog) (tables : List TableId) : Prop :=
  ∀ before x after, tables = before ++ x :: after → before ≠ [] → ∃ above ∈ before, c.Hangs above x

theorem ParentsFirst.append {tables fresh : List TableId} (h : c.ParentsFirst tables)
    (below : ∀ x ∈ fresh, c.Hangs above x) (listed : above ∈ tables) :
    c.ParentsFirst (tables ++ fresh) := by
  intro before x after cut some
  obtain ⟨others, rfl, new⟩ | ⟨others, rfl, new⟩ := List.append_eq_append_iff.1 cut
  · exact ⟨above, List.mem_append_left _ listed, below x (by simp [new])⟩
  · cases others with
    | nil =>
      rw [List.append_nil] at listed
      have new : fresh = x :: after := new.symm
      exact ⟨above, listed, below x (by simp [new])⟩
    | cons first rest =>
      obtain ⟨rfl, rfl⟩ := List.cons.inj new
      exact h before x rest rfl some

/-- One more round leaves the list in order and at its beginning as it is. -/
theorem ListsOn.parentsFirst {walk walk' : List TableId × Nat} (round : c.ListsOn walk walk')
    (h : c.ParentsFirst walk.1) (starts : walk.1.head? = some root) :
    c.ParentsFirst walk'.1 ∧ walk'.1.head? = some root := by
  obtain ⟨t, next, rfl⟩ := round
  obtain ⟨fresh, same, new, _⟩ := listOnce_eq_append walk.1 (c.children t)
  dsimp only
  rw [same]
  refine ⟨h.append (fun x inside => mem_children.1 (new x inside)) (List.mem_of_getElem? next), ?_⟩
  rw [List.head?_append, starts]
  rfl

theorem parentsFirst_of_rounds {walk : List TableId × Nat}
    (rounds : ReflTransGen c.ListsOn ([root], 0) walk) :
    c.ParentsFirst walk.1 ∧ walk.1.head? = some root := by
  induction rounds with
  | refl =>
    refine ⟨fun before x after cut some => ?_, rfl⟩
    have short := congrArg List.length cut
    simp only [List.length_append, List.length_cons, List.length_nil] at short
    exact absurd (List.eq_nil_of_length_eq_zero (by omega)) some
  | tail _ round ih => exact round.parentsFirst ih.1 ih.2

/-- The rounds of a walk end where the list is gone through. -/
theorem rounds_walkDown {done pending : List TableId} (h : Walking c root done pending)
    (enough : steps + done.length = c.joins.size + 1) :
    ReflTransGen c.ListsOn (done ++ pending, done.length)
      (c.walkDown steps done pending, (c.walkDown steps done pending).length) := by
  induction steps generalizing done pending with
  | zero =>
    have bound := h.length_le
    rw [List.length_append] at bound
    obtain rfl := List.eq_nil_of_length_eq_zero (show pending.length = 0 by omega)
    rw [walkDown, List.append_nil]
  | succ steps ih =>
    cases pending with
    | nil => rw [walkDown, List.append_nil]
    | cons t pending =>
      obtain ⟨fresh, same, _⟩ := listOnce_eq_append (done ++ t :: pending) (c.children t)
      have split : done ++ t :: pending ++ fresh = done ++ [t] ++ (pending ++ fresh) := by simp
      have dropped : (listOnce (done ++ t :: pending) (c.children t)).drop (done.length + 1) =
          pending ++ fresh := by
        rw [same, split]
        exact List.drop_left' (by simp)
      have rounds := ih h.step (by simp; omega)
      rw [dropped, ← split, ← same, List.length_append, List.length_singleton] at rounds
      rw [walkDown, dropped]
      exact rounds.head ⟨t, by simp, rfl⟩

/-- In any catalog the root of a table is what its way up ends at. A way up that goes on for ever is
told as a circle and one that breaks off as a breach, and nothing else is. The walk down from a
table comes to its end; it lists the table first and then, each one once and behind a table that it
hangs under, all that joins lead down to. -/
theorem ways_end (c : Catalog) (k : TableId) :
    ((∀ r, c.rootOf k = .ok r ↔ ReflTransGen c.LeadsTo k r ∧ c.IsTop r) ∧
      ((∃ child parent, c.rootOf k = .error (.joinCycle child parent)) ↔ c.Endless k) ∧
      ((∃ breach, c.rootOf k = .error (.internal breach)) ↔
        ∃ x, ReflTransGen c.LeadsTo k x ∧ c.BreaksOff x)) ∧
    ReflTransGen c.ListsOn ([k], 0) (c.subtree k, (c.subtree k).length) ∧
      (c.subtree k).Nodup ∧ (∀ x, x ∈ c.subtree k ↔ c.Below k x) ∧
      (c.subtree k).head? = some k ∧ c.ParentsFirst (c.subtree k) := by
  have rounds : ReflTransGen c.ListsOn ([k], 0) (c.subtree k, (c.subtree k).length) :=
    rounds_walkDown (.start c k) (by simp)
  obtain ⟨ordered, starts⟩ := parentsFirst_of_rounds rounds
  exact ⟨⟨fun _ => rootOf_eq_ok_iff_isTop, exists_joinCycle_iff, exists_breach_iff⟩, rounds,
    nodup_subtree, fun x => mem_subtree_iff, starts, ordered⟩

end GroupedTables.Catalog
