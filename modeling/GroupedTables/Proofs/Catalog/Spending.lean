import GroupedTables.Proofs.Catalog.Counting

/-!
# What ids are spent

A new table, join or sequence takes one id, and grouping takes one for each tree at most. So how
many ids an action spends at most can be read off its text, if it is known how many tables there
are and how many columns a table has. An action for which so many ids are left does in words what
it does without end, also where it takes back what it has done or tries something out on a copy.
-/

namespace GroupedTables

open GroupedTables.Action

namespace OrderedMap

variable {α : Type} {m : OrderedMap α}

@[simp] theorem size_modify {key : Nat} {f : α → α} : (m.modify key f).size = m.size :=
  List.length_map _

theorem size_filter_le (p : Nat → α → Bool) : (m.filter p).size ≤ m.size :=
  List.length_filter_le _ _

theorem size_insert_le {key : Nat} {value : α} : (m.insert key value).size ≤ m.size + 1 := by
  unfold insert
  split
  · exact Nat.le_of_eq List.length_append
  · exact Nat.le_trans (Nat.le_of_eq size_modify) (Nat.le_succ _)

end OrderedMap

namespace Catalog

variable {tables tables' columns last last' : Nat} {c : Catalog} {x : TableId} {t : Table}
  {f : Table → Table}

/-- There are so many tables at most, with so many columns at most, and so many ids at most were
given away. -/
structure Bounded (tables columns last : Nat) (c : Catalog) : Prop where
  tables : c.tables.size ≤ tables
  columns : ∀ ⦃k t⦄, c.tables.get? k = some t → t.columns.length ≤ columns
  counter : c.nextId ≤ last

namespace Bounded

theorem mono (h : c.Bounded tables columns last) (more : tables ≤ tables') (later : last ≤ last') :
    c.Bounded tables' columns last' :=
  ⟨Nat.le_trans h.tables more, h.columns, Nat.le_trans h.counter later⟩

/-- Counting on. -/
theorem counted {n : Nat} (h : c.Bounded tables columns last) (le : n ≤ last') :
    Bounded tables columns last' { c with nextId := n } := ⟨h.tables, h.columns, le⟩

theorem modify (h : c.Bounded tables columns last)
    (narrow : ∀ t, t.columns.length ≤ columns → (f t).columns.length ≤ columns) :
    Bounded tables columns last { c with tables := c.tables.modify x f } where
  tables := Nat.le_trans (Nat.le_of_eq OrderedMap.size_modify) h.tables
  columns k t there := by
    rw [OrderedMap.get?_modify] at there
    split at there
    · obtain ⟨u, found, rfl⟩ := Option.map_eq_some_iff.1 there
      exact narrow u (h.columns found)
    · exact h.columns there
  counter := h.counter

theorem insert (h : c.Bounded tables columns last) (narrow : t.columns.length ≤ columns) :
    Bounded (tables + 1) columns last { c with tables := c.tables.insert x t } where
  tables := Nat.le_trans OrderedMap.size_insert_le (Nat.succ_le_succ h.tables)
  columns k u there := by
    rw [OrderedMap.get?_insert] at there
    split at there
    · exact Option.some.inj there ▸ narrow
    · exact h.columns there
  counter := h.counter

theorem erase (h : c.Bounded tables columns last) :
    Bounded tables columns last { c with tables := c.tables.erase x } where
  tables := Nat.le_trans (OrderedMap.size_filter_le _) h.tables
  columns _ _ there := h.columns (OrderedMap.get?_of_erase there)
  counter := h.counter

/-- Where tables are grouped does not matter. -/
theorem of_bodies {c' : Catalog} (h : c.Bounded tables columns last) (same : c'.bodies = c.bodies)
    (le : c'.nextId ≤ last') : c'.Bounded tables columns last' where
  tables := by
    have sizes (c : Catalog) : c.bodies.size = c.tables.size := List.length_map _
    rw [← sizes, same, sizes]
    exact h.tables
  columns k t there := by
    obtain ⟨u, there', body⟩ := exists_of_bodies same.symm there
    have columns : u.columns = t.columns := (congrArg Table.columns body :)
    exact columns ▸ h.columns there'
  counter := le

/-- Grouping takes an id for each tree at most. -/
theorem regrouped (h : c.Bounded tables columns last) :
    (Unbounded.of fun _ => c.regrouped).Bounded tables columns (last + tables) := by
  have loop (roots : List TableId) (c : Catalog) :
      (Unbounded.of fun _ => roots.foldl groupTree c).nextId ≤ c.nextId + roots.length := by
    induction roots generalizing c with
    | nil => exact Nat.le_refl _
    | cons root rest ih =>
      refine Nat.le_trans (ih _) ?_
      rw [nextId_groupTree, List.length_cons]
      split <;> omega
  have few : c.roots.length ≤ c.tables.size := by
    rw [roots, List.length_map]
    exact Nat.le_trans (List.length_filter_le _ _) (Nat.le_of_eq (List.length_map _))
  refine h.of_bodies bodies_regrouped (Nat.le_trans (loop c.roots c) ?_)
  exact Nat.add_le_add h.counter (Nat.le_trans few h.tables)

end Bounded

end Catalog

variable {σ τ α β : Type} {read : σ → Catalog} {tables columns more more' ids ids' : Nat}
  {act : Numbering → Action σ α}

/-- An action that adds so many tables and spends so many ids at most, if there are so many tables
and columns at most. If these ids are left, it does in words what it does without end. -/
structure Spends (read : σ → Catalog) (tables columns more ids : Nat)
    (act : Numbering → Action σ α) : Prop where
  spent : ∀ ⦃last s⦄, (read s).Bounded tables columns last →
    WP (Unbounded.of act) (fun _ t => (read t).Bounded (tables + more) columns (last + ids))
      (fun _ t => (read t).Bounded (tables + more) columns (last + ids)) s
  same : ∀ ⦃last s⦄, (read s).Bounded tables columns last → last + ids < Word.bound →
    act .words s = Unbounded.of act s

/-- An action that does not ask for ids. -/
theorem Spends.of_maintains {act : Action σ α}
    (h : ∀ last, Maintains (fun s => (read s).Bounded tables columns last) act) :
    Spends read tables columns 0 0 fun _ => act :=
  ⟨fun last s bounded => h last s bounded, fun _ _ _ _ => rfl⟩

namespace Spends

theorem mono (h : Spends read tables columns more ids act) (wider : more ≤ more')
    (dearer : ids ≤ ids') : Spends read tables columns more' ids' act where
  spent last s bounded := by
    have wider := Nat.add_le_add_left wider tables
    have dearer := Nat.add_le_add_left dearer last
    exact (h.spent bounded).mono (fun _ _ ended => ended.mono wider dearer)
      fun _ _ ended => ended.mono wider dearer
  same last s bounded room :=
    h.same bounded (Nat.lt_of_le_of_lt (Nat.add_le_add_left dearer last) room)

theorem bind_add {next : Numbering → α → Action σ β}
    (first : Spends read tables columns more ids act)
    (rest : ∀ a, Spends read (tables + more) columns more' ids' fun N => next N a) :
    Spends read tables columns (more + more') (ids + ids') fun N => act N >>= next N where
  spent last s bounded := by
    rw [← Nat.add_assoc tables, ← Nat.add_assoc last]
    apply (wp_bind _ _).2
    exact (first.spent bounded).mono (fun a _ bounded' => (rest a).spent bounded')
      fun _ _ bounded' => bounded'.mono (Nat.le_add_right ..) (Nat.le_add_right ..)
  same last s bounded room := by
    have begun := first.spent bounded
    have early := first.same bounded (Nat.lt_of_le_of_lt
      (Nat.add_le_add_left (Nat.le_add_right ids ids') last) room)
    cases ended : Unbounded.of act s with
    | ok a t =>
      have late := (rest a).same (begun.ok ended) (Nat.add_assoc last ids ids' ▸ room)
      exact (bind_of_ok (early.trans ended)).trans (late.trans (bind_of_ok ended).symm)
    | error f t => exact (bind_of_error (early.trans ended)).trans (bind_of_error ended).symm

theorem bind_zero {next : Numbering → α → Action σ β}
    (first : Spends read tables columns 0 ids act)
    (rest : ∀ a, Spends read tables columns more ids' fun N => next N a) :
    Spends read tables columns more (ids + ids') fun N => act N >>= next N :=
  (first.bind_add rest).mono (Nat.le_of_eq (Nat.zero_add _)) (Nat.le_refl _)

theorem bind {next : Numbering → α → Action σ β} (first : Spends read tables columns more ids act)
    (rest : ∀ a, Spends read (tables + more) columns 0 ids' fun N => next N a) :
    Spends read tables columns more (ids + ids') fun N => act N >>= next N :=
  first.bind_add rest

theorem idle_bind {first : Action σ β} {next : Numbering → β → Action σ α}
    (idle : ∀ last, Maintains (fun s => (read s).Bounded tables columns last) first)
    (rest : ∀ b, Spends read tables columns more ids fun N => next N b) :
    Spends read tables columns more ids fun N => first >>= next N :=
  ((of_maintains idle).bind_zero rest).mono (Nat.le_refl _) (Nat.le_of_eq (Nat.zero_add _))

theorem bind_idle {next : α → Action σ β} (h : Spends read tables columns more ids act)
    (idle : ∀ a last, Maintains (fun s => (read s).Bounded (tables + more) columns last) (next a)) :
    Spends read tables columns more ids fun N => act N >>= next := by
  have rest (a : α) : Spends read (tables + more) columns 0 0 fun _ => next a :=
    of_maintains (idle a)
  exact h.bind rest

theorem done (a : α) : Spends read tables columns more ids fun _ => (pure a : Action σ α) :=
  (of_maintains fun _ => maintains_pure a).mono (Nat.zero_le _) (Nat.zero_le _)

theorem thrown (f : Fault) :
    Spends read tables columns more ids fun _ => (throw f : Action σ α) :=
  (of_maintains fun _ => maintains_throw f).mono (Nat.zero_le _) (Nat.zero_le _)

/-- What was found is known from then on. -/
theorem lift_bind {x : Except Fault β} {next : Numbering → β → Action σ α}
    (rest : ∀ b, x = .ok b → Spends read tables columns more ids fun N => next N b) :
    Spends read tables columns more ids fun N => liftM x >>= next N := by
  cases x with
  | ok b => exact rest b rfl
  | error f => exact thrown f

theorem get_bind {next : Numbering → σ → Action σ α}
    (rest : ∀ last s, (read s).Bounded tables columns last →
      Spends read tables columns more ids fun N => next N s) :
    Spends read tables columns more ids fun N => MonadStateOf.get >>= next N where
  spent last s bounded := (rest last s bounded).spent bounded
  same last s bounded := (rest last s bounded).same bounded

theorem ite {b : Prop} [Decidable b] {other : Numbering → Action σ α}
    (first : Spends read tables columns more ids act)
    (second : Spends read tables columns more ids other) :
    Spends read tables columns more ids fun N => if b then act N else other N := by
  split
  · exact first
  · exact second

/-- An action that goes on unless it is refused. -/
theorem refused {b : Prop} {_ : Decidable b} {f : Fault} {next : Numbering → PUnit → Action σ α}
    (rest : Spends read tables columns more ids fun N => next N ⟨⟩) :
    Spends read tables columns more ids fun N => if b then throw f >>= next N else next N ⟨⟩ :=
  .ite (.idle_bind (fun _ => maintains_throw f) fun _ => rest) rest

theorem discard (h : Spends read tables columns more ids act) :
    Spends read tables columns more ids fun N => Functor.discard (act N) :=
  h.bind_idle fun _ _ => maintains_pure ()

/-- A loop that spends an id for each item. -/
theorem forM {items : List β} {act : Numbering → β → Action σ Unit}
    (each : ∀ b ∈ items, Spends read tables columns 0 1 fun N => act N b) :
    Spends read tables columns 0 items.length fun N => items.forM (act N) := by
  induction items with
  | nil => exact .done ()
  | cons b rest ih =>
    rw [List.length_cons, Nat.add_comm]
    exact (each b (.head _)).bind fun _ => ih fun b inside => each b (.tail _ inside)

theorem orUndo {undo : Numbering → Action σ Unit} (h : Spends read tables columns more ids act)
    (back : Spends read (tables + more) columns more' ids' undo) :
    Spends read tables columns (more + more') (ids + ids')
      fun N => Action.orUndo (act N) (undo N) where
  spent last s bounded := by
    rw [← Nat.add_assoc tables, ← Nat.add_assoc last]
    refine wp_orUndo.2 ((h.spent bounded).mono (fun _ _ bounded' => ?_) fun _ _ bounded' => ?_)
    · exact bounded'.mono (Nat.le_add_right ..) (Nat.le_add_right ..)
    · exact back.spent bounded'
  same last s bounded room := by
    have begun := h.spent bounded
    have early := h.same bounded (Nat.lt_of_le_of_lt
      (Nat.add_le_add_left (Nat.le_add_right ids ids') last) room)
    cases ended : Unbounded.of act s with
    | ok a t => exact (orUndo_of_ok (early.trans ended)).trans (orUndo_of_ok ended).symm
    | error f t =>
      have late : (undo .words).outcome t = (Unbounded.of undo).outcome t := by
        rw [outcome, back.same (begun.error ended) (Nat.add_assoc last ids ids' ▸ room), outcome]
      rw [orUndo_of_error (early.trans ended), late]
      exact (orUndo_of_error ended).symm

theorem allOrNothing (h : Spends read tables columns more ids act) :
    Spends read tables columns more ids fun N => Action.allOrNothing (act N) where
  spent last s bounded := by
    refine wp_allOrNothing.2 ((h.spent bounded).mono (fun _ _ => id) fun _ _ _ => ?_)
    exact bounded.mono (Nat.le_add_right ..) (Nat.le_add_right ..)
  same last s bounded room := by
    have ended := h.same bounded room
    unfold Action.allOrNothing
    rw [ended]

end Spends

namespace Catalog

/-- Something about catalogs that nothing matters to but the counter and how many tables and columns
there are. -/
structure InNumbers (P : Catalog → Prop) : Prop where
  edited : ∀ ⦃c x f⦄, (∀ t, (f t).columns.length = t.columns.length) → P c →
    P { c with tables := c.tables.modify x f }
  linked : ∀ ⦃c⦄ joins groups sequences, P c → P { c with joins, groups, sequences }

theorem inNumbers_bounded (tables columns last : Nat) :
    InNumbers (Bounded tables columns last) where
  edited _ _ _ same bounded :=
    bounded.modify fun t narrow => Nat.le_trans (Nat.le_of_eq (same t)) narrow
  linked _ _ _ _ bounded := ⟨bounded.tables, bounded.columns, bounded.counter⟩

namespace InNumbers

variable {P : Catalog → Prop} (h : InNumbers P)

include h

theorem maintains_assignGroup (x : TableId) (group : Option GroupId) :
    Maintains P (assignGroup x group) :=
  Catalog.maintains_assignGroup fun _ _ => h.edited fun _ => rfl

theorem maintains_clearParentJoin (x : TableId) : Maintains P (clearParentJoin x) := by
  refine maintains_get.bind fun c => (maintains_lift _).bind fun t => ?_
  cases t.parentJoin with
  | none => exact maintains_pure _
  | some i =>
    refine .bind (maintains_editTable fun _ => h.edited fun _ => rfl) fun _ => ?_
    refine maintains_get.bind fun c => .bind (maintains_modify ?_) fun _ => ?_
    · exact fun c holds => h.linked (c := c) _ c.groups c.sequences holds
    · exact (h.maintains_assignGroup x none).bind fun _ => maintains_pure _

theorem maintains_renameTable (x : TableId) (name : TableName) :
    Maintains P (renameTable x name) := by
  have edited : Maintains P (editTable x ({ · with name })) :=
    maintains_editTable fun _ => h.edited fun _ => rfl
  refine maintains_get.bind fun c => ?_
  cases c.tableNamed? name with
  | none => exact edited
  | some holder => exact .ite ((maintains_throw _).bind fun _ => edited) edited

theorem maintains_removeSequence (id : SequenceId) : Maintains P (removeSequence id) :=
  maintains_get.bind fun _ => (maintains_lift _).bind fun _ =>
    (maintains_modify fun c holds => h.linked (c := c) c.joins c.groups _ holds).bind fun _ =>
      maintains_pure _

end InNumbers

section

variable (tables columns last : Nat)

theorem maintains_removeTable (x : TableId) :
    Maintains (Bounded tables columns last) (removeTable x) := by
  have numbers := inNumbers_bounded tables columns last
  have cleared (k : TableId) := (numbers.maintains_clearParentJoin k).discard
  refine maintains_get.bind fun c => (maintains_lift _).bind fun t => ?_
  refine (Maintains.forM cleared).bind fun _ => maintains_get.bind fun c => ?_
  have erased : Maintains (Bounded tables columns last) (do
      let t ← (← get).table x
      modify fun c => { c with tables := c.tables.erase x }
      modify fun c =>
        { c with
          sequences := (c.orphanedSequences t).foldl OrderedMap.erase c.sequences
          groups := c.groups.filter fun _ group => group.root != x }
      return t : Edit Table) := by
    refine maintains_get.bind fun c => (maintains_lift _).bind fun t => ?_
    refine (maintains_modify fun _ bounded => bounded.erase).bind fun _ => ?_
    refine (maintains_modify fun c bounded => ?_).bind fun _ => maintains_pure _
    exact numbers.linked (c := c) c.joins _ _ bounded
  exact (maintains_lift _).bind fun t => .ite ((cleared x).bind fun _ => erased) erased

end

section

variable (tables columns)

/-- An edit that ends in words as it ends without end if the counter it leaves is a word. -/
theorem Counts.spends {α : Type} {act : Numbering → Edit α} (h : Counts act)
    (spent : ∀ ⦃last c⦄, c.Bounded tables columns last →
      WP (Unbounded.of act) (fun _ c' => c'.Bounded (tables + more) columns (last + ids))
        (fun _ c' => c'.Bounded (tables + more) columns (last + ids)) c) :
    Spends id tables columns more ids act :=
  ⟨spent, fun _ _ bounded room => h.same (Nat.lt_of_le_of_lt (spent bounded).leaves.counter room)⟩

theorem spends_allocateId : Spends id tables columns 0 1 fun _ => allocateId :=
  counts_allocateId.spends tables columns fun _ _ bounded =>
    bounded.counted (Nat.succ_le_succ bounded.counter)

theorem spends_regroup : Spends id tables columns 0 tables fun _ => regroup :=
  counts_regroup.spends tables columns fun _ _ bounded => bounded.regrouped

theorem spends_addSequence (s : Sequence) :
    Spends id tables columns 0 1 fun _ => addSequence s := by
  refine .bind_idle (spends_allocateId tables columns) fun i last => ?_
  refine .bind (maintains_modify fun c bounded => ?_) fun _ => maintains_pure i
  exact (inNumbers_bounded _ columns last).linked (c := c) c.joins c.groups _ bounded

theorem spends_createTable {definition : Table} (narrow : definition.columns.length ≤ columns) :
    Spends id tables columns 1 1 fun _ => createTable definition := by
  refine .idle_bind (fun _ => maintains_requireUnused _) fun _ => ?_
  have put (i : TableId) : Spends id tables columns 1 0 fun _ =>
      putTable { definition with id := i, parentJoin := none, group := none }.renumbered :=
    { spent := fun _ _ bounded =>
        bounded.insert (Nat.le_trans (Nat.le_of_eq List.length_mapIdx) narrow)
      same := fun _ _ _ _ => rfl }
  exact (spends_allocateId tables columns).bind_zero fun i =>
    (put i).bind_idle fun _ _ => maintains_pure i

theorem spends_addJoin (parent child : TableId) (pairs : List JoinColumn) :
    Spends id tables columns 0 1 fun _ => addJoin parent child pairs := by
  refine .idle_bind (fun _ => maintains_get) fun c => ?_
  refine .lift_bind fun p _ => .lift_bind fun t _ => .lift_bind fun _ _ => ?_
  apply Spends.refused
  refine .bind_idle (spends_allocateId tables columns) fun i last => ?_
  have numbers := inNumbers_bounded (tables + 0) columns last
  refine .bind (maintains_modify fun c bounded => ?_) fun _ => ?_
  · exact numbers.linked (c := c) _ c.groups c.sequences bounded
  · refine .bind (maintains_editTable fun _ => numbers.edited fun _ => rfl) fun _ => ?_
    exact (numbers.maintains_assignGroup child _).bind fun _ => maintains_pure i

end

end Catalog

end GroupedTables
