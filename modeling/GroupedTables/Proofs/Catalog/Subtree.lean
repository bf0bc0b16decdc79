import GroupedTables.Catalog.Tree
import GroupedTables.Proofs.OrderedMap
import Mathlib.Logic.Relation

/-!
# What the walk down a tree lists

The walk goes through a list that grows while it is gone through, for at most as many steps
as there are joins and one. That is enough in every catalog, circles and missing tables
included: each listed table but the first is the child of some join and is listed once. So
the list holds exactly the tables that joins lead down to.
-/

namespace GroupedTables.Catalog

open Relation

variable {c : Catalog} {root x y : TableId} {done pending listed tables : List TableId}

/-- A join leads from one table down to the other. -/
def Hangs (c : Catalog) (above below : TableId) : Prop :=
  ∃ j ∈ c.joins.values, j.parent = above ∧ j.child = below

/-- A table is another one or somewhere below it. -/
def Below (c : Catalog) : TableId → TableId → Prop := ReflTransGen c.Hangs

/-- No table is below itself. -/
def Acyclic (c : Catalog) : Prop := ∀ x, ¬ TransGen c.Hangs x x

theorem mem_childJoins {j : Join} : j ∈ c.childJoins x ↔ j ∈ c.joins.values ∧ j.parent = x := by
  simp [childJoins]

theorem mem_children : y ∈ c.children x ↔ c.Hangs x y := by
  simp only [children, List.mem_map, mem_childJoins, and_assoc, Hangs]

theorem hangs_iff : c.Hangs x y ↔ ∃ i j, c.joins.get? i = some j ∧ j.parent = x ∧ j.child = y := by
  simp only [Hangs, OrderedMap.mem_values_iff]
  constructor
  · rintro ⟨j, ⟨i, there⟩, above, below⟩
    exact ⟨i, j, there, above, below⟩
  · rintro ⟨i, j, there, above, below⟩
    exact ⟨j, ⟨i, there⟩, above, below⟩

theorem Acyclic.of_hangs {c' : Catalog} (h : c.Acyclic)
    (fewer : ∀ ⦃a b⦄, c'.Hangs a b → c.Hangs a b) : c'.Acyclic :=
  fun x circle => h x (TransGen.mono fewer _ _ circle)

/-- Taking joins away closes no circle. -/
theorem Acyclic.mono {c' : Catalog} (h : c.Acyclic)
    (fewer : ∀ ⦃i j⦄, c'.joins.get? i = some j → c.joins.get? i = some j) : c'.Acyclic := by
  refine h.of_hangs fun a b hangs => ?_
  obtain ⟨i, j, there, above, below⟩ := hangs_iff.1 hangs
  exact hangs_iff.2 ⟨i, j, fewer there, above, below⟩

/-- Listing tables once more adds those that were not listed, behind the others. -/
theorem listOnce_eq_append (listed tables : List TableId) :
    ∃ fresh, listOnce listed tables = listed ++ fresh ∧ (∀ x ∈ fresh, x ∈ tables) ∧
      (∀ x ∈ tables, x ∈ listed ++ fresh) ∧ (listed.Nodup → (listed ++ fresh).Nodup) := by
  induction tables generalizing listed with
  | nil => exact ⟨[], by simp [listOnce]⟩
  | cons t rest ih =>
    by_cases known : t ∈ listed
    · obtain ⟨fresh, same, new, all, distinct⟩ := ih listed
      refine ⟨fresh, ?_, fun x inside => .tail _ (new x inside), ?_, distinct⟩
      · simpa [listOnce, known] using same
      · simpa [known] using all
    · obtain ⟨fresh, same, new, all, distinct⟩ := ih (listed ++ [t])
      refine ⟨t :: fresh, ?_, ?_, ?_, fun nodup => ?_⟩
      · simpa [listOnce, known] using same
      · simpa using fun x inside => Or.inr (new x inside)
      · simpa using all
      · have single : (listed ++ [t]).Nodup := by
          rw [List.nodup_append]
          refine ⟨nodup, by simp, fun x inside y last same => known ?_⟩
          rwa [← List.mem_singleton.1 last, ← same]
        simpa using distinct single

/-- The walk has gone through some tables, and others are listed. -/
structure Walking (c : Catalog) (root : TableId) (done pending : List TableId) : Prop where
  root_listed : root ∈ done ++ pending
  below : ∀ x ∈ done ++ pending, c.Below root x
  closed : ∀ x ∈ done, ∀ y, c.Hangs x y → y ∈ done ++ pending
  distinct : (done ++ pending).Nodup

namespace Walking

theorem start (c : Catalog) (root : TableId) : Walking c root [] [root] where
  root_listed := by simp
  below := by rintro x inside; obtain rfl := List.mem_singleton.1 inside; exact .refl
  closed := by simp
  distinct := by simp

/-- Going through one more table lists what is below it. -/
theorem step {t : TableId} (h : Walking c root done (t :: pending)) :
    Walking c root (done ++ [t])
      ((listOnce (done ++ t :: pending) (c.children t)).drop (done.length + 1)) := by
  obtain ⟨fresh, same, new, all, distinct⟩ :=
    listOnce_eq_append (done ++ t :: pending) (c.children t)
  have split : done ++ t :: pending ++ fresh = done ++ [t] ++ (pending ++ fresh) := by simp
  have dropped : (listOnce (done ++ t :: pending) (c.children t)).drop (done.length + 1) =
      pending ++ fresh := by
    rw [same, split]
    exact List.drop_left' (by simp)
  rw [dropped]
  constructor
  case root_listed => rw [← split]; exact List.mem_append_left _ h.root_listed
  case distinct => rw [← split]; exact distinct h.distinct
  case below =>
    intro x inside
    rw [← split] at inside
    obtain inside | inside := List.mem_append.1 inside
    · exact h.below x inside
    · exact (h.below t (by simp)).tail (mem_children.1 (new x inside))
  case closed =>
    intro x inside y hangs
    rw [← split]
    obtain inside | inside := List.mem_append.1 inside
    · exact List.mem_append_left _ (h.closed x inside y hangs)
    · obtain rfl := List.mem_singleton.1 inside
      exact all y (mem_children.2 hangs)

/-- No more tables are listed than there are joins to find them by, and the first. -/
theorem length_le (h : Walking c root done pending) :
    (done ++ pending).length ≤ c.joins.size + 1 := by
  have covered : done ++ pending ⊆ root :: c.joins.values.map (·.child) := by
    intro x inside
    obtain same | ⟨y, _, j, there, _, child⟩ := (h.below x inside).cases_tail
    · exact same ▸ .head _
    · exact .tail _ (child ▸ List.mem_map_of_mem there)
  simpa [OrderedMap.size, OrderedMap.values] using List.Nodup.length_le_of_subset h.distinct covered

/-- A walk that has gone through all it listed has found what there is. -/
theorem mem_iff (h : Walking c root done []) : x ∈ done ↔ c.Below root x := by
  have listed := h.root_listed
  have closed := h.closed
  rw [List.append_nil] at listed closed
  constructor
  · intro inside
    exact h.below x (List.mem_append_left _ inside)
  · intro below
    induction below with
    | refl => exact listed
    | tail _ hangs inside => exact closed _ inside _ hangs

end Walking

/-- The steps are enough to go through all that is listed. -/
theorem walking_walkDown {steps : Nat} (h : Walking c root done pending)
    (enough : steps + done.length = c.joins.size + 1) :
    Walking c root (c.walkDown steps done pending) [] := by
  induction steps generalizing done pending with
  | zero =>
    have bound := h.length_le
    rw [List.length_append] at bound
    obtain rfl := List.eq_nil_of_length_eq_zero (show pending.length = 0 by omega)
    rwa [walkDown]
  | succ steps ih =>
    cases pending with
    | nil => rwa [walkDown]
    | cons t pending =>
      rw [walkDown]
      exact ih h.step (by simp; omega)

theorem walking_subtree (c : Catalog) (root : TableId) : Walking c root (c.subtree root) [] :=
  walking_walkDown (.start c root) (by simp)

/-- In every catalog the subtree holds the table and all that joins lead down to from it. -/
theorem mem_subtree_iff : x ∈ c.subtree root ↔ c.Below root x := (walking_subtree c root).mem_iff

/-- No table is listed twice, also where several joins lead to it. -/
theorem nodup_subtree : (c.subtree root).Nodup := by
  simpa using (walking_subtree c root).distinct

theorem self_mem_subtree : root ∈ c.subtree root := mem_subtree_iff.2 .refl

/-- Subtrees are a matter of the joins alone. -/
theorem subtree_congr {c' : Catalog} (same : c'.joins = c.joins) :
    c'.subtree root = c.subtree root := by
  have walk (steps : Nat) (done pending : List TableId) :
      c'.walkDown steps done pending = c.walkDown steps done pending := by
    induction steps generalizing done pending with
    | zero => cases pending <;> simp only [walkDown]
    | succ steps ih =>
      cases pending with
      | nil => simp only [walkDown]
      | cons t pending => simp only [walkDown, ih, children, childJoins, same]
  rw [subtree, subtree, same, walk]

/-- A join whose parent is in a subtree has its child there as well. -/
theorem child_mem_subtree {j : Join} (there : j ∈ c.joins.values)
    (inside : j.parent ∈ c.subtree root) : j.child ∈ c.subtree root :=
  mem_subtree_iff.2 ((mem_subtree_iff.1 inside).tail ⟨j, there, rfl, rfl⟩)

/-- A table in a subtree that is not its root hangs below another table of it. -/
theorem exists_join_of_mem_subtree (inside : x ∈ c.subtree root) (other : x ≠ root) :
    ∃ j ∈ c.joins.values, j.child = x ∧ j.parent ∈ c.subtree root := by
  obtain same | ⟨y, below, j, there, rfl, rfl⟩ := (mem_subtree_iff.1 inside).cases_tail
  · exact absurd same other
  · exact ⟨j, there, rfl, mem_subtree_iff.2 below⟩

end GroupedTables.Catalog
