import GroupedTables.Proofs.Catalog.Requests

/-!
# Counting in words

Ids are words, and a counter that has come to the last of them starts again. What is proved of
edits elsewhere is proved of ids that are counted without end. An edit never counts back, so the
counter in the end tells whether some id on the way was no word; and if all of them were, the edit
does in words what it does without end.
-/

namespace GroupedTables

open GroupedTables.Action

/-- What something comes to where ids are counted without end. -/
abbrev Unbounded.of {α : Type} (f : Numbering → α) : α := f Unbounded.numbering

namespace Catalog

variable {α β : Type} {c : Catalog} {parent child : TableId} {columns : List JoinColumn}

theorem words_next {n : Nat} (room : n + 1 < Word.bound) : Numbering.words.next n = n + 1 :=
  Nat.mod_eq_of_lt room

/-- An edit that never counts back, and ends in words as it ends without end if the counter it
leaves is a word. -/
def Counts (act : Numbering → Edit α) : Prop :=
  ∀ c, WP (Unbounded.of act)
    (fun a c' => c.nextId ≤ c'.nextId ∧ (c'.nextId < Word.bound → act .words c = .ok a c'))
    (fun f c' => c.nextId ≤ c'.nextId ∧ (c'.nextId < Word.bound → act .words c = .error f c')) c

namespace Counts

/-- An edit that gives no id away. -/
theorem of_maintains {act : Edit α} (h : ∀ n, Maintains (fun c => c.nextId = n) act) :
    Counts fun _ => act := fun c =>
  ((h c.nextId c rfl).outcome).mono
    (fun _ _ ⟨ended, same⟩ => ⟨Nat.le_of_eq same.symm, fun _ => ended⟩)
    fun _ _ ⟨ended, same⟩ => ⟨Nat.le_of_eq same.symm, fun _ => ended⟩

theorem lift (x : Except Fault α) : Counts fun _ => (liftM x : Edit α) :=
  of_maintains fun _ => maintains_lift x

theorem bind {act : Numbering → Edit α} {next : Numbering → α → Edit β} (first : Counts act)
    (rest : ∀ a, Counts fun N => next N a) : Counts fun N => act N >>= next N := by
  intro c
  rw [wp_bind]
  apply (first c).mono
  case ok =>
    rintro a c' ⟨le, same⟩
    apply (rest a c').mono
    · rintro b c'' ⟨le', same'⟩
      refine ⟨Nat.le_trans le le', fun room => ?_⟩
      exact (bind_of_ok (same (Nat.lt_of_le_of_lt le' room))).trans (same' room)
    · rintro f c'' ⟨le', same'⟩
      refine ⟨Nat.le_trans le le', fun room => ?_⟩
      exact (bind_of_ok (same (Nat.lt_of_le_of_lt le' room))).trans (same' room)
  case error =>
    rintro f c' ⟨le, same⟩
    exact ⟨le, fun room => bind_of_error (same room)⟩

theorem discard {act : Numbering → Edit α} (h : Counts act) :
    Counts fun N => Functor.discard (act N) :=
  h.bind fun _ => .of_maintains fun _ => maintains_pure ()

theorem ite {b : Prop} [Decidable b] {act other : Numbering → Edit α} (first : Counts act)
    (second : Counts other) : Counts fun N => if b then act N else other N := by
  split
  · exact first
  · exact second

/-- The counter that an edit leaves is a word. -/
theorem same {act : Numbering → Edit α} (h : Counts act)
    (room : ((Unbounded.of act).outcome c).2.nextId < Word.bound) :
    act .words c = Unbounded.of act c := by
  have ended := h c
  unfold outcome at room
  unfold WP at ended
  cases without : Unbounded.of act c with
  | ok a c' =>
    rw [without] at room ended
    exact ended.2 room
  | error f c' =>
    rw [without] at room ended
    exact ended.2 room

end Counts

theorem counts_allocateId : Counts fun _ => allocateId := by
  refine fun c => ⟨Nat.le_succ _, fun room => ?_⟩
  have next : Numbering.words.next c.nextId = c.nextId + 1 := words_next room
  change EStateM.Result.ok (Numbering.words.next c.nextId)
    { c with nextId := Numbering.words.next c.nextId } = _
  rw [next]
  rfl

theorem maintains_requireUnused {P : Catalog → Prop} (name : TableName) :
    Maintains P (requireUnused name) :=
  maintains_get.bind fun _ => .ite (maintains_throw _) (maintains_pure _)

theorem counts_createTable (definition : Table) : Counts fun _ => createTable definition := by
  have free : Counts fun _ => requireUnused definition.name :=
    .of_maintains fun _ => maintains_requireUnused _
  exact free.bind fun _ => counts_allocateId.bind fun _ => .of_maintains fun _ =>
    .bind (maintains_modify fun _ same => same) fun _ => maintains_pure _

theorem counts_addTable (name : TableName) : Counts fun _ => addTable name :=
  counts_createTable { id := 0, name }

theorem counts_addSequence (s : Sequence) : Counts fun _ => addSequence s :=
  counts_allocateId.bind fun _ => .of_maintains fun _ =>
    .bind (maintains_modify fun _ same => same) fun _ => maintains_pure _

theorem maintains_editTable {P : Catalog → Prop} {x : TableId} {f : Table → Table}
    (same : ∀ c, P c → P { c with tables := c.tables.modify x f }) :
    Maintains P (editTable x f) := by
  intro c holds
  unfold editTable
  rw [wp_bind, wp_get, wp_bind, wp_lift]
  exact ⟨fun _ _ => same c holds, fun _ _ => holds⟩

theorem maintains_assignGroup {P : Catalog → Prop} {x : TableId} {group : Option GroupId}
    (same : ∀ c k, P c → P { c with tables := c.tables.modify k ({ · with group }) }) :
    Maintains P (assignGroup x group) :=
  maintains_get.bind fun _ => .forM fun _ => maintains_editTable fun _ => same _ _

theorem counts_addJoin : Counts fun _ => addJoin parent child columns := by
  have placed (i : JoinId) (p : Table) : Counts fun _ => (do
      modify fun c => { c with joins := c.joins.insert i { id := i, parent, child, columns } }
      editTable child ({ · with parentJoin := some i })
      assignGroup child p.group
      return i : Edit JoinId) :=
    .of_maintains fun _ => .bind (maintains_modify fun _ same => same) fun _ =>
      .bind (maintains_editTable fun _ same => same) fun _ =>
        .bind (maintains_assignGroup fun _ _ same => same) fun _ => maintains_pure _
  refine .bind (.of_maintains fun _ => maintains_get) fun c => .bind (.lift _) fun p =>
    .bind (.lift _) fun t => .bind (.lift _) fun _ => ?_
  have joined := counts_allocateId.bind fun i => placed i p
  exact .ite (.bind (.of_maintains fun _ => maintains_throw _) fun _ => joined) joined

theorem words_groupTree {root : TableId}
    (room : (Unbounded.of fun _ => c.groupTree root).nextId < Word.bound) :
    c.groupTree root = Unbounded.of fun _ => c.groupTree root := by
  have ensured : c.ensureGroup root = Unbounded.of fun _ => c.ensureGroup root := by
    cases own : c.ownGroup? root with
    | some g => simp only [ensureGroup, own]
    | none =>
      rw [nextId_groupTree, own] at room
      simp only [ensureGroup, own, words_next room]
      rfl
  rw [groupTree, ensured]
  rfl

theorem words_regrouped (room : (Unbounded.of fun _ => c.regrouped).nextId < Word.bound) :
    c.regrouped = Unbounded.of fun _ => c.regrouped := by
  have loop (roots : List TableId) (c : Catalog)
      (room : (Unbounded.of fun _ => roots.foldl groupTree c).nextId < Word.bound) :
      roots.foldl groupTree c = Unbounded.of fun _ => roots.foldl groupTree c := by
    induction roots generalizing c with
    | nil => rfl
    | cons root rest ih =>
      have first := words_groupTree (Nat.lt_of_le_of_lt (nextId_le_foldl_groupTree rest) room)
      rw [List.foldl_cons, first]
      exact ih _ room
  rw [regrouped, loop _ c room]
  rfl

theorem counts_regroup : Counts fun _ => regroup := fun _ =>
  ⟨nextId_le_regrouped, fun room => congrArg (EStateM.Result.ok ()) (words_regrouped room)⟩

/-- A call ends in words as it ends without end if the counter it leaves is a word. -/
theorem Request.run_words (request : Request)
    (room : (Unbounded.of fun _ => request.after c).nextId < Word.bound) :
    request.run c = (Unbounded.of fun _ => request.run) c := by
  cases request with
  | addTable name => exact (counts_addTable name).discard.same room
  | createTable definition => exact (counts_createTable definition).discard.same room
  | addJoin parent child columns => exact counts_addJoin.discard.same room
  | regroup => exact counts_regroup.same room
  | addSequence sequence => exact (counts_addSequence sequence).discard.same room
  | _ => rfl

theorem Request.after_words (request : Request)
    (room : (Unbounded.of fun _ => request.after c).nextId < Word.bound) :
    request.after c = Unbounded.of fun _ => request.after c := by
  unfold after outcome
  rw [request.run_words room]

/-- So do any number of calls. -/
theorem Intact.foldl_after_words (h : c.Intact) {requests : List Request}
    (room : (Unbounded.of fun _ => requests.foldl Request.after c).nextId < Word.bound) :
    requests.foldl Request.after c = Unbounded.of fun _ => requests.foldl Request.after c := by
  induction requests generalizing c with
  | nil => rfl
  | cons request rest ih =>
    have first := request.after_words
      (Nat.lt_of_le_of_lt ((h.after request).nextId_le_foldl rest) room)
    rw [List.foldl_cons, first]
    exact ih (h.after request) room

/-- Two tables and the last word. Customers are in no group, and the one of orders has the first
word for its id. -/
def exhausted : Catalog where
  tables := .ofList [(1, { id := 1, name := ⟨"shop", "customer"⟩ }),
    (2, { id := 2, name := ⟨"shop", "order"⟩, group := some 0 })]
  groups := .ofList [(0, { id := 0, name := "order", root := 2 })]
  nextId := Word.bound - 1

end Catalog

end GroupedTables
