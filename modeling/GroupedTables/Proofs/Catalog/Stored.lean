import GroupedTables.Catalog.Stored
import GroupedTables.Proofs.Json.Decode
import GroupedTables.Proofs.OrderedMap
import Mathlib.Tactic.MkIffOfInductiveProp

/-!
# Catalogs come back from their stored form

A stored catalog is read back as it was, entry by entry in the order of its maps. That it fits
together is not needed, and neither is anything of its names and texts; all there is to a
catalog that can be stored is that its numbers fit where they are kept, in eight bytes or in
one.
-/

namespace GroupedTables

open Json

/-- The length fits in eight bytes, precision and scale each in one. -/
@[mk_iff]
structure TypeDescriptor.Storable (d : TypeDescriptor) : Prop where
  length : ∀ n ∈ d.length, n < Word.bound
  precision : d.precision < 256
  scale : d.scale < 256

/-- The position and the sequence fit in eight bytes. -/
@[mk_iff]
structure Column.Storable (c : Column) : Prop where
  position : c.position < Word.bound
  descriptor : c.descriptor.Storable
  identity : ∀ s ∈ c.identity, s < Word.bound

/-- The ids fit in eight bytes, and the columns can be stored. -/
@[mk_iff]
structure Table.Storable (t : Table) : Prop where
  id : t.id < Word.bound
  columns : ∀ c ∈ t.columns, c.Storable
  parentJoin : ∀ i ∈ t.parentJoin, i < Word.bound
  group : ∀ g ∈ t.group, g < Word.bound

/-- The ids fit in eight bytes. -/
@[mk_iff]
structure Join.Storable (j : Join) : Prop where
  id : j.id < Word.bound
  parent : j.parent < Word.bound
  child : j.child < Word.bound

/-- The ids fit in eight bytes. -/
@[mk_iff]
structure Group.Storable (g : Group) : Prop where
  id : g.id < Word.bound
  root : g.root < Word.bound

/-- The id fits in eight bytes, and so do the bounds and the steps, with their signs. -/
@[mk_iff]
structure Sequence.Storable (s : Sequence) : Prop where
  id : s.id < Word.bound
  start : Word.holds s.start = true
  increment : Word.holds s.increment = true
  min : Word.holds s.min = true
  max : Word.holds s.max = true

/-- The keys fit in eight bytes, and the values can be stored. -/
def OrderedMap.Storable {α : Type} (m : OrderedMap α) (value : α → Prop) : Prop :=
  ∀ e ∈ m.entries, e.1 < Word.bound ∧ value e.2

/-- The counter fits in eight bytes, and the entries can be stored. -/
@[mk_iff]
structure Catalog.Storable (c : Catalog) : Prop where
  tables : c.tables.Storable Table.Storable
  joins : c.joins.Storable Join.Storable
  groups : c.groups.Storable Group.Storable
  sequences : c.sequences.Storable Sequence.Storable
  nextId : c.nextId < Word.bound

instance : DecidablePred TypeDescriptor.Storable :=
  fun d => decidable_of_iff' _ d.storable_iff

instance : DecidablePred Column.Storable := fun c => decidable_of_iff' _ c.storable_iff

instance : DecidablePred Table.Storable := fun t => decidable_of_iff' _ t.storable_iff

instance : DecidablePred Join.Storable := fun j => decidable_of_iff' _ j.storable_iff

instance : DecidablePred Group.Storable := fun g => decidable_of_iff' _ g.storable_iff

instance : DecidablePred Sequence.Storable := fun s => decidable_of_iff' _ s.storable_iff

instance {α : Type} (m : OrderedMap α) (value : α → Prop) [DecidablePred value] :
    Decidable (m.Storable value) :=
  inferInstanceAs (Decidable (∀ e ∈ m.entries, e.1 < Word.bound ∧ value e.2))

instance : DecidablePred Catalog.Storable := fun c => decidable_of_iff' _ c.storable_iff

theorem Signedness.ofStoredName?_storedName (s : Signedness) :
    ofStoredName? s.storedName = some s := by
  cases s <;> decide

theorem TypeDescriptor.Storable.stores {d : TypeDescriptor} (h : d.Storable) :
    Stores toJson ofJson? d :=
  stores_record ["ty", "length", "precision", "scale", "signedness", "charset", "collation"]
    (by decide) (by decide) rfl
    (.required (by rfl) (stores_plainChoice (DataType.ofStoredName?_storedName d.type)) <|
      .absentOr (by rfl) (fun n declared => stores_below (h.length n declared)) <|
      .required (by rfl) (stores_below h.precision) <|
      .required (by rfl) (stores_below h.scale) <|
      .required (by rfl) (stores_plainChoice (Signedness.ofStoredName?_storedName d.signedness)) <|
      .absentOr (by rfl) (fun charset _ => stores_string charset) <|
      .absentOr (by rfl) (fun collation _ => stores_string collation) <|
      .done _) rfl rfl

theorem TableName.stores (n : TableName) : Stores toJson ofJson? n :=
  stores_record ["schema", "name"] (by decide) (by decide) rfl
    (.required (by rfl) (stores_string n.schema) <|
      .required (by rfl) (stores_string n.name) <|
      .done _) rfl rfl

theorem ColumnDefault.stores (d : ColumnDefault) : Stores toJson ofJson? d := by
  have canonical {name text : String} (honest : Key.Honest { text := name }) :
      Canonical (.object [({ text := name }, .string text)]) := by
    refine .object (List.forall_mem_singleton.2 honest) ?_
    exact List.forall_mem_singleton.2 (.string text)
  cases d with
  | literal text => exact ⟨canonical (by decide), nofun, rfl⟩
  | function name => exact ⟨canonical (by decide), nofun, rfl⟩

theorem Column.Storable.stores {c : Column} (h : c.Storable) : Stores toJson ofJson? c :=
  stores_record ["name", "position", "descriptor", "nullable", "default", "identity"]
    (by decide) (by decide) rfl
    (.required (by rfl) (stores_string c.name) <|
      .required (by rfl) (stores_below h.position) <|
      .required (by rfl) h.descriptor.stores <|
      .required (by rfl) (stores_bool c.nullable) <|
      .absentOr (by rfl) (fun d _ => d.stores) <|
      .absentOr (by rfl) (fun s drawn => stores_below (h.identity s drawn)) <|
      .done _) rfl rfl

theorem IndexColumn.stores (c : IndexColumn) : Stores toJson ofJson? c :=
  stores_record ["column", "ascending"] (by decide) (by decide) rfl
    (.required (by rfl) (stores_string c.column) <|
      .required (by rfl) (stores_bool c.ascending) <|
      .done _) rfl rfl

theorem Index.stores (i : Index) : Stores toJson ofJson? i :=
  stores_record ["name", "columns", "unique", "primary"] (by decide) (by decide) rfl
    (.required (by rfl) (stores_string i.name) <|
      .required (by rfl) (stores_list fun c _ => c.stores) <|
      .required (by rfl) (stores_bool i.unique) <|
      .required (by rfl) (stores_bool i.primary) <|
      .done _) rfl rfl

theorem Table.Storable.stores {t : Table} (h : t.Storable) : Stores toJson ofJson? t :=
  stores_record ["id", "name", "columns", "indexes", "parent_join", "group", "is_virtual"]
    (by decide) (by decide) rfl
    (.required (by rfl) (stores_below h.id) <|
      .required (by rfl) t.name.stores <|
      .required (by rfl) (stores_list fun c inside => (h.columns c inside).stores) <|
      .required (by rfl) (stores_list fun i _ => i.stores) <|
      .absentOr (by rfl) (fun i hung => stores_below (h.parentJoin i hung)) <|
      .absentOr (by rfl) (fun g inside => stores_below (h.group g inside)) <|
      .required (by rfl) (stores_bool t.isVirtual) <|
      .done _) rfl rfl

theorem JoinColumn.stores (c : JoinColumn) : Stores toJson ofJson? c :=
  stores_record ["parent", "child"] (by decide) (by decide) rfl
    (.required (by rfl) (stores_string c.parent) <|
      .required (by rfl) (stores_string c.child) <|
      .done _) rfl rfl

theorem Join.Storable.stores {j : Join} (h : j.Storable) : Stores toJson ofJson? j :=
  stores_record ["id", "parent", "child", "columns"] (by decide) (by decide) rfl
    (.required (by rfl) (stores_below h.id) <|
      .required (by rfl) (stores_below h.parent) <|
      .required (by rfl) (stores_below h.child) <|
      .required (by rfl) (stores_list fun c _ => c.stores) <|
      .done _) rfl rfl

theorem Group.Storable.stores {g : Group} (h : g.Storable) : Stores toJson ofJson? g :=
  stores_record ["id", "name", "root"] (by decide) (by decide) rfl
    (.required (by rfl) (stores_below h.id) <|
      .required (by rfl) (stores_string g.name) <|
      .required (by rfl) (stores_below h.root) <|
      .done _) rfl rfl

theorem Sequence.Storable.stores {s : Sequence} (h : s.Storable) : Stores toJson ofJson? s :=
  stores_record ["id", "schema", "name", "start", "increment", "min", "max", "cycle"]
    (by decide) (by decide) rfl
    (.required (by rfl) (stores_below h.id) <|
      .required (by rfl) (stores_string s.schema) <|
      .required (by rfl) (stores_string s.name) <|
      .required (by rfl) (stores_signedWord h.start) <|
      .required (by rfl) (stores_signedWord h.increment) <|
      .required (by rfl) (stores_signedWord h.min) <|
      .required (by rfl) (stores_signedWord h.max) <|
      .required (by rfl) (stores_bool s.cycle) <|
      .done _) rfl rfl

def keyOfId (k : Nat) : Key := { text := String.ofList (Text.digits k) }

theorem honest_keyOfId (k : Nat) : (keyOfId k).Honest := by
  have plain : (Text.digits k).any escapes = false := by
    simpa using fun c inside => escapes_of_isDigit (Text.isDigit_digits inside)
  rw [Key.Honest, keyOfId, String.toList_ofList, plain]

theorem idOfKey?_keyOfId {k : Nat} (small : k < Word.bound) : idOfKey? (keyOfId k) = some k := by
  simp [idOfKey?, keyOfId, Text.digitsValue_digits, small]

theorem OrderedMap.Storable.stores {α : Type} {m : OrderedMap α} {value : α → Prop}
    {write : α → Json} {read : Json → Option α} (h : m.Storable value)
    (each : ∀ a, value a → Stores write read a) : Stores (toJson write) (ofJson? read) m where
  canonical := by
    refine .object (fun member inside => ?_) fun member inside => ?_
    · obtain ⟨e, _, rfl⟩ := List.mem_map.1 inside
      exact honest_keyOfId e.1
    · obtain ⟨e, inside', rfl⟩ := List.mem_map.1 inside
      exact (each e.2 (h e inside').2).canonical
  present := nofun
  reads := by
    have entries : (m.entries.map fun e => (keyOfId e.1, write e.2)).mapM
        (fun member : Key × Json => do
          let id ← idOfKey? member.1
          let value ← read member.2
          return (id, value)) = some (m.entries.map id) := by
      refine mapM_map fun e inside => ?_
      rw [idOfKey?_keyOfId (h e inside).1, (each e.2 (h e inside).2).reads]
      rfl
    rw [List.map_id] at entries
    have same : ofList m.entries = m := ext (entries_ofList m.nodup)
    exact (congrArg (Option.bind · fun entries => some (ofList entries)) entries).trans
      (congrArg some same)

namespace Catalog

variable {c : Catalog}

theorem Storable.stores (h : c.Storable) : Stores toJson ofJson? c :=
  stores_record ["tables", "joins", "groups", "sequences", "next_id"] (by decide) (by decide) rfl
    (.required (by rfl) (h.tables.stores fun _ => Table.Storable.stores) <|
      .required (by rfl) (h.joins.stores fun _ => Join.Storable.stores) <|
      .required (by rfl) (h.groups.stores fun _ => Group.Storable.stores) <|
      .required (by rfl) (h.sequences.stores fun _ => Sequence.Storable.stores) <|
      .required (by rfl) (stores_below h.nextId) <|
      .done _) rfl rfl

/-- A catalog is read back from its stored form as it was, with every map in its order. -/
theorem ofStored?_stored (h : c.Storable) : ofStored? c.stored = some c := by
  rw [ofStored?, stored, parse?_print h.stores.canonical, Option.bind_some, h.stores.reads]

/-- A catalog whose texts need every kind of escape, with the greatest and the least numbers and
with entries that are not in the order of their ids. -/
def sundry : Catalog where
  tables := .ofList [
    (9, {
      id := 18446744073709551615
      name := ⟨"a \"quoted\" schema", "back\\slash"⟩
      columns := [
        { name := "tab\tand\nline", descriptor := .decimal 65 30,
          default := some (.literal "\x00") },
        { name := "größe", descriptor := .ofType .varchar, nullable := false, identity := some 7,
          default := some (.function "NOW") }]
      indexes := [.primaryOf ["größe"]] }),
    (2, {
      id := 2
      name := ⟨"", "\x7f😀"⟩
      parentJoin := some 3
      group := some 4
      isVirtual := true })]
  joins := .ofList [(3, { id := 3, parent := 9, child := 2, columns := [⟨"größe", "/"⟩] })]
  groups := .ofList [(4, { id := 4, name := "\x1f\r", root := 9 })]
  sequences := .ofList [
    (7, { Sequence.ofStart "s" "q" Word.least (-1) with min := Word.least, cycle := true })]
  nextId := 18446744073709551615

theorem ofStored?_stored_sundry : sundry.Storable ∧ ofStored? sundry.stored = some sundry :=
  ⟨by decide +kernel, ofStored?_stored (by decide +kernel)⟩

end Catalog

end GroupedTables
