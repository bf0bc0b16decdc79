import GroupedTables.Proofs.Alter.Atomicity
import GroupedTables.Proofs.Alter.Statements
import GroupedTables.Proofs.Catalog.Settled

/-!
# Calls in a row

Tables in memory are altered by statements, and renamed and dropped by direct requests. Any number
of these leaves a settled catalog settled, in place or by swaps, whichever of them fail. What is
not kept in general is that no sequence is drawn from twice: a new sequence may be taken for one
that another column has just been given, if the two are alike and happen to have one id. As long
as the new sequences of each draft can be told apart this cannot happen either.
-/

namespace GroupedTables

open GroupedTables.Action Catalog

variable {live c : Catalog} {m : Memory} {current d t : Table} {target : Staged} {x : TableId}
  {name newName : TableName} {p : Planner Memory} {config : Config} {k : Context} {told : Prop}
  {elements : List Element}

section

open scoped Unbounded

/-- A catalog is as settled as it was. As long as new sequences can be told apart, none is drawn
from twice if none was before. -/
structure Keeps (told : Prop) (live c : Catalog) : Prop where
  settled : c.Settled
  apart : told → live.SequencesApart → c.SequencesApart

namespace Keeps

theorem refl (h : live.Settled) : Keeps told live live := ⟨h, fun _ => id⟩

theorem withCounter {n : Nat} (h : live.Settled) (le : live.nextId ≤ n) :
    Keeps told live { live with nextId := n } :=
  ⟨h.withCounter le, fun _ => id⟩

theorem renamed (h : live.Settled) (free : live.tableNamed? name = none) :
    Keeps told live (live.renamed x name) :=
  have h' : (live.renamed x name).Settled := h.renamed free
  ⟨h', fun _ apart => apart.part within_renamed h.wellFormed.numbered h'.wellFormed.numbered⟩

theorem dropped (h : live.Settled) (there : live.tables.get? x = some t) :
    Keeps told live (live.removed x t).regrouped :=
  have h' : (live.removed x t).regrouped.Settled := h.dropped there
  ⟨h', fun _ apart => apart.part h.wellFormed.intact.within_dropped h.wellFormed.numbered
    h'.wellFormed.numbered⟩

theorem committed (h : live.Settled) (found : live.tables.get? current.id = some current)
    (fits : target.Fits live current) (planned : target.catalog.tables.get? current.id = some d)
    (committed : Committed live target.catalog current d x c)
    (discerning : told → target.Discerning live) : Keeps told live c where
  settled := ⟨committed.wellFormed, committed.grouped, committed.spent h.spent⟩
  apart known apart :=
    committed.sequencesApart h.wellFormed apart found fits planned (discerning known)

end Keeps

namespace Memory

/-- However an action on tables in memory ends, the catalog it leaves is as settled as it was. -/
abbrev Settles {σ α : Type} (told : Prop) (act : Action σ α) (catalog : σ → Catalog) (s : σ) :
    Prop :=
  WP act (fun _ s' => Keeps told (catalog s) (catalog s'))
    (fun _ s' => Keeps told (catalog s) (catalog s')) s

theorem settles_renameTable (h : m.catalog.Settled) :
    Settles told (renameTable name newName) catalog m := by
  cases named : m.catalog.tableNamed? name with
  | some t =>
    exact wp_renameTable h.wellFormed.numbered named (fun _ _ _ => .refl h) fun free =>
      .renamed h free
  | none =>
    unfold Settles renameTable edit renameNamed
    simp only [wp_bind, wp_within, wp_allOrNothing, wp_get, tableNamed, named]
    exact .refl h

theorem settles_dropTable (h : m.catalog.Settled) :
    Settles told (dropTable name) catalog m := by
  cases named : m.catalog.tableNamed? name with
  | some t =>
    obtain ⟨there, _⟩ := h.wellFormed.numbered.get?_of_tableNamed? named
    exact (wp_of_ok (dropTable_eq h.wellFormed.intact named)).2 (.dropped h there)
  | none =>
    unfold Settles dropTable edit removeNamed
    simp only [wp_bind, wp_within, wp_allOrNothing, wp_get, tableNamed, named]
    exact .refl h

/-- Carrying a plan out. -/
theorem settles_alterTable {columnChanges indexChanges : List Change} (h : m.catalog.Settled)
    (found : m.catalog.tables.get? current.id = some current)
    (fits : target.Fits m.catalog current) (discerning : told → target.Discerning m.catalog) :
    Settles told (alterTable config copyRows current.name target columnChanges indexChanges)
      (catalog ∘ Run.state) ⟨m, k⟩ := by
  have wf := h.wellFormed
  obtain ⟨d, planned, drafted⟩ := fits.drafts.itself
  refine wp_alterTable wf found fits planned confined_copyRows (fun _ _ _ => .refl h) ?_
    (fun _ _ _ ⟨committed, _⟩ _ => .committed h found fits planned committed discerning)
    fun _ _ _ _ _ committed _ _ => .committed h found fits planned committed discerning
  have grouped := (regrouped_eq_self_iff wf.numbered wf.intact.toLinked).2 h.grouped
  rintro f m₂ _ _ (filled | ⟨filled, _⟩)
  · exact (filled.not_error_copyRows wf found rfl).elim
  · obtain ⟨n, le, same⟩ := ((filled.addsRows_ok confined_copyRows).unaltered_dropped wf grouped
      found drafted filled.free).catalog
    change Keeps told m.catalog (m₂.dropped _).catalog
    rw [same]
    exact .withCounter h le

end Memory

namespace Planner

/-- The new sequences in the plan for a statement can be told apart. -/
def Discerns (p : Planner Memory) (live : Catalog) (k : Context) (s : AlterTable) : Prop :=
  ∀ current elements e plan k', live.tableNamed (s.table.resolve p.schema) = .ok current →
    s.operation = .elements elements → Route.ofElements current elements = .ok (.edit e) →
    p.plan live current.id current e k = .ok plan k' → plan.staged.Discerning live

section

variable (h : m.catalog.Settled) (found : m.catalog.tables.get? current.id = some current)
  (discerning : told → ∀ e plan k', Route.ofElements current elements = .ok (.edit e) →
    p.plan m.catalog current.id current e k = .ok plan k' → plan.staged.Discerning m.catalog)

include h found discerning

theorem settles_alterElements :
    Memory.Settles told ((p.over config).alterElements m.catalog current.id elements)
      (Memory.catalog ∘ Run.state) ⟨m, k⟩ := by
  apply wp_alterElements_of found (fun _ _ => .refl h)
  case unsupported => exact fun _ => .refl h
  case renamed => exact fun newName _ => Memory.settles_renameTable h
  case edited =>
    intro e sorted
    refine ((p.wp_plan h.wellFormed found e k).outcome).mono ?_ fun _ _ _ => .refl h
    rintro plan k' ⟨planned, fits, _⟩
    exact Memory.settles_alterTable h found fits fun known =>
      discerning known e plan k' sorted planned

theorem settles_alterWhole (s : AlterTable) :
    Memory.Settles told ((p.over config).alterWhole m.catalog current.id s elements)
      (Memory.catalog ∘ Run.state) ⟨m, k⟩ := by
  apply (wp_bind _ _).2
  apply (settles_alterElements h found discerning).mono_post
  intro level r kept
  cases level with
  | some level => exact kept
  | none => exact kept

end

/-- Whatever becomes of a statement about a table. -/
theorem settles_alterTable (h : m.catalog.Settled) (s : AlterTable)
    (discerning : told → p.Discerns m.catalog k s) :
    Memory.Settles told ((p.over config).alterTable s) (Memory.catalog ∘ Run.state) ⟨m, k⟩ := by
  refine wp_alterTable_of h.wellFormed.numbered s (fun _ _ => .refl h) (fun m' same _ => ?_)
    fun current elements named found operation => ?_
  · change Keeps told m.catalog m'.catalog
    rw [same]
    exact .refl h
  · exact settles_alterWhole h found
      (fun known e plan k' => discerning known current elements e plan k' named operation) s

/-- Whatever becomes of a statement about a group. -/
theorem settles_alterGroup (h : m.catalog.Settled) (s : AlterGroup)
    (discerning : told → p.Discerns m.catalog k s.alterTable) :
    Memory.Settles told ((p.over config).alterGroup s) (Memory.catalog ∘ Run.state) ⟨m, k⟩ := by
  unfold Memory.Settles alterGroup
  rw [wp_bind, wp_get, wp_bind, wp_lift]
  refine ⟨fun current named => ?_, fun _ _ => .refl h⟩
  obtain ⟨found, _⟩ := h.wellFormed.numbered.get?_of_tableNamed? (tableNamed_eq_ok_iff.1 named)
  exact settles_alterWhole h found
    (fun known e plan k' => discerning known current s.elements e plan k' named rfl) _

end Planner

end

/-- A call on tables in memory: a statement, with the schema it is run in and its context, or a
direct request. -/
inductive Call where
  | alterTable (schema : String) (context : Context) (statement : AlterTable)
  | alterGroup (schema : String) (context : Context) (statement : AlterGroup)
  | rename (name newName : TableName)
  | drop (name : TableName)

namespace Call

/-- The memory that a call leaves, whether it succeeds or fails. -/
def after [Numbering] (p : Planner Memory) (config : Config) (m : Memory) : Call → Memory
  | alterTable schema k s =>
    ((({ p with schema }.over config).alterTable s).outcome ⟨m, k⟩).2.state
  | alterGroup schema k s =>
    ((({ p with schema }.over config).alterGroup s).outcome ⟨m, k⟩).2.state
  | rename name newName => ((Memory.renameTable name newName).outcome m).2
  | drop name => ((Memory.dropTable name).outcome m).2

/-- The new sequences in the plan of a call can be told apart. -/
def Discerning (p : Planner Memory) (live : Catalog) : Call → Prop
  | alterTable schema k s => { p with schema }.Discerns live k s
  | alterGroup schema k s => { p with schema }.Discerns live k s.alterTable
  | rename .. => True
  | drop _ => True

def afterAll [Numbering] (p : Planner Memory) (config : Config) (m : Memory)
    (calls : List Call) : Memory :=
  calls.foldl (after p config) m

/-- The new sequences in the plan of each call can be told apart. -/
def AllDiscerning [Numbering] (p : Planner Memory) (config : Config) : Memory → List Call → Prop
  | _, [] => True
  | m, call :: rest =>
    call.Discerning p m.catalog ∧ AllDiscerning p config (call.after p config m) rest

def size : Call → Nat
  | alterTable _ _ s => s.elements.length
  | alterGroup .. => 1
  | rename .. => 0
  | drop _ => 0

/-- There is room for each call when it is made. -/
def AllRoomy [Numbering] (p : Planner Memory) (config : Config) : Memory → List Call → Prop
  | _, [] => True
  | m, call :: rest => m.catalog.Roomy call.size ∧ AllRoomy p config (call.after p config m) rest

theorem after_words (wf : m.catalog.WellFormed) (call : Call) (room : m.catalog.Roomy call.size) :
    call.after p config m = Unbounded.of fun _ => call.after p config m := by
  cases call with
  | alterTable schema k s =>
    exact congrArg (·.state) (congrArg Prod.snd (outcome_congr (Planner.alterTable_words wf room)))
  | alterGroup schema k s =>
    exact congrArg (·.state) (congrArg Prod.snd (outcome_congr (Planner.alterGroup_words wf room)))
  | rename name newName => rfl
  | drop name => exact congrArg Prod.snd (outcome_congr (Memory.dropTable_words room))

theorem keeps_after (h : m.catalog.Settled) (call : Call) (room : m.catalog.Roomy call.size) :
    Keeps (call.Discerning p m.catalog) m.catalog (call.after p config m).catalog := by
  rw [after_words h.wellFormed call room]
  cases call with
  | alterTable schema k s => exact (Planner.settles_alterTable h s id).leaves
  | alterGroup schema k s => exact (Planner.settles_alterGroup h s id).leaves
  | rename name newName => exact (Memory.settles_renameTable h).leaves
  | drop name => exact (Memory.settles_dropTable h).leaves

theorem keeps_afterAll (h : m.catalog.Settled) (calls : List Call)
    (room : AllRoomy p config m calls) :
    Keeps (AllDiscerning p config m calls) m.catalog (afterAll p config m calls).catalog := by
  induction calls generalizing m with
  | nil => exact .refl h
  | cons call rest ih =>
    have first : Keeps (call.Discerning p m.catalog) m.catalog (call.after p config m).catalog :=
      keeps_after h call room.1
    have others := ih first.settled room.2
    exact ⟨others.settled, fun ⟨known, known'⟩ apart =>
      others.apart known' (first.apart known apart)⟩

/-- After any calls that there is room for, of which any may have failed, a settled catalog is
settled again: it is in order, each table is in the group of its tree, and there is no other group
and no sequence that is not drawn from. If none was drawn from twice, none is as long as the new
sequences of each plan can be told apart. -/
theorem settled_afterAll (settled : m.catalog.Settled) (calls : List Call)
    (room : AllRoomy p config m calls) :
    (afterAll p config m calls).catalog.Settled ∧
      (∀ k t, (afterAll p config m calls).catalog.tables.get? k = some t →
        ∃ root g group, (afterAll p config m calls).catalog.rootOf k = .ok root ∧
          t.group = some g ∧ (afterAll p config m calls).catalog.groups.get? g = some group ∧
          group.root = root) ∧
      (m.catalog.SequencesApart → AllDiscerning p config m calls →
        (afterAll p config m calls).catalog.SequencesApart) :=
  have kept := keeps_afterAll settled calls room
  ⟨kept.settled, fun _ _ => kept.settled.exists_group, fun apart known => kept.apart known apart⟩

/-- The customers are given two more generated columns, and then the orders are dropped. -/
def restocking : List Call :=
  [.alterTable "shop" {} ⟨⟨none, "customer"⟩, .elements
      [.addColumn { name := "card", descriptor := .ofType .bigInt, identity := some ⟨1, 1⟩ },
      .addColumn { name := "desk", descriptor := .ofType .bigInt, identity := some ⟨1, 1⟩ }]⟩,
    .drop ⟨"shop", "order"⟩]

/-- The new sequences have different names. -/
theorem settled_afterAll_shop :
    (afterAll Planner.swapping { strategy := .copyAndSwap } Memory.stockedShop
      restocking).catalog.Settled ∧
    (afterAll Planner.swapping { strategy := .copyAndSwap } Memory.stockedShop
      restocking).catalog.SequencesApart := by
  have settled : Memory.stockedShop.catalog.Settled :=
    shop_wellFormed.settled (by decide +kernel) (by decide +kernel)
  obtain ⟨after, _, apart⟩ := @settled_afterAll Memory.stockedShop Planner.swapping
    { strategy := .copyAndSwap } settled restocking
    ⟨by decide +kernel, by decide +kernel, trivial⟩
  refine ⟨after, apart (by decide +kernel) ⟨?_, trivial, trivial⟩⟩
  intro current elements e plan k' named operation sorted planned
  have same : Memory.stockedShop.catalog.tableNamed ⟨"shop", "customer"⟩ = .ok customers := by
    decide +kernel
  cases same.symm.trans named
  cases operation
  cases sorted
  exact (show WP (Planner.swapping.plan Catalog.shop 1 customers _)
    (fun plan _ => plan.staged.Discerning Catalog.shop) (fun _ _ => True) {} by
      decide +kernel).ok planned

def counting : Catalog where
  tables := .ofList [(1,
    { id := 1, name := ⟨"test", "t"⟩, indexes := [], group := some 3
      columns := [{ name := "a", descriptor := .ofType .bigInt, identity := some 2 }] })]
  groups := .ofList [(3, { id := 3, name := "t", root := 1 })]
  sequences := .ofList [(2, { Sequence.ofStart "test" "t_a_seq" 1 1 with id := 2 })]
  nextId := 3

/-- The column is renamed. Then another one is added under the name it had, which is to count as
the first one is to count from then on. -/
def recounting : List Call :=
  [.alterTable "test" {} ⟨⟨none, "t"⟩, .elements [.renameColumn "a" "b"]⟩,
    .alterTable "test" {} ⟨⟨none, "t"⟩, .elements
      [.addColumn { name := "a", descriptor := .ofType .bigInt, identity := some ⟨1, 2⟩ },
      .modifyColumn "b" (.identity (.setIncrement 2))]⟩]

/-- The two new sequences are alike but for their ids, and both columns draw from one in the
end. -/
theorem not_sequencesApart_afterAll :
    counting.Settled ∧ counting.SequencesApart ∧
      ¬ (afterAll Planner.swapping {} { catalog := counting }
        recounting).catalog.SequencesApart :=
  ⟨WellFormed.settled (by decide +kernel) (by decide +kernel) (by decide +kernel),
    by decide +kernel, by decide +kernel⟩

end Call

end GroupedTables
