import GroupedTables.Json.Decode
import GroupedTables.Proofs.Json.RoundTrip

/-!
# Data that comes back from its stored form

What is written and what is read are two functions for each kind of data, and nothing but their
texts ties them together. Here it is said of each way of writing what has to be read so that the
data come back: of texts and numbers, of lists and of choices, and of records, which are gone
through field by field in the order in which they are read.
-/

namespace GroupedTables.Json

variable {α β : Type} {write : α → Json} {read : Json → Option α} {a : α} {b : β} {n : Nat}
  {fields : Fields} {name : String} {values : List Json}

/-- A value comes back from the form that it is written in, and that form from its text. -/
structure Stores (write : α → Json) (read : Json → Option α) (a : α) : Prop where
  canonical : (write a).Canonical
  /-- What is there is not written like what is absent. -/
  present : write a ≠ .null
  reads : read (write a) = some a

theorem stores_string (text : String) : Stores .string string? text := ⟨.string text, nofun, rfl⟩

theorem stores_bool (b : Bool) : Stores .bool bool? b := ⟨.bool b, nofun, rfl⟩

theorem stores_below {bound : Nat} (small : n < bound) : Stores nat (below? bound) n :=
  ⟨.int n, nofun, if_pos small⟩

theorem stores_signedWord {n : Int} (small : Word.holds n = true) : Stores .int signedWord? n :=
  ⟨.int n, nofun, if_pos small⟩

theorem stores_plainChoice {spelling : α → String} {find : String → Option α}
    (found : find (spelling a) = some a) :
    Stores (fun a => .string (spelling a)) (plainChoice? find) a :=
  ⟨.string _, nofun, found⟩

/-- Items that are read back one by one are read back as a list. -/
theorem mapM_map {f : β → Option γ} {g : α → β} {h : α → γ} {items : List α}
    (each : ∀ a ∈ items, f (g a) = some (h a)) : (items.map g).mapM f = some (items.map h) := by
  induction items with
  | nil => rfl
  | cons a rest ih =>
    rw [List.map_cons, List.mapM_cons, each a (.head _),
      ih fun b inside => each b (.tail _ inside)]
    rfl

theorem stores_list {items : List α} (each : ∀ a ∈ items, Stores write read a) :
    Stores (list write) (list? read) items where
  canonical := by
    refine .array fun v inside => ?_
    obtain ⟨a, inside', rfl⟩ := List.mem_map.1 inside
    exact (each a inside').canonical
  present := nofun
  reads := by
    have read_all := mapM_map (h := id) fun a inside => (each a inside).reads
    rwa [List.map_id] at read_all

def Fields.members (fields : Fields) : List (Key × Json) :=
  fields.map fun f => ({ text := f.1 }, f.2)

/-- Something is read from fields with these values, each of which comes back from its text. -/
structure Yields (values : List Json) (got : Option β) (b : β) : Prop where
  canonical : ∀ v ∈ values, v.Canonical
  got : got = some b

namespace Yields

theorem done (b : β) : Yields [] (some b) b := ⟨nofun, rfl⟩

theorem required {next : α → Option β} (found : fields.lookup name = some (write a))
    (field : Stores write read a) (rest : Yields values (next a) b) :
    Yields (write a :: values) (fields.required name read >>= next) b where
  canonical := List.forall_mem_cons.2 ⟨field.canonical, rest.canonical⟩
  got := by
    rw [Fields.required, found, Option.bind_some, field.reads]
    exact rest.got

theorem absentOr {next : Option α → Option β} {o : Option α}
    (found : fields.lookup name = some (Json.optional write o))
    (field : ∀ a ∈ o, Stores write read a) (rest : Yields values (next o) b) :
    Yields (Json.optional write o :: values) (fields.absentOr name read >>= next) b := by
  cases o with
  | none =>
    refine ⟨List.forall_mem_cons.2 ⟨.null, rest.canonical⟩, ?_⟩
    rw [Fields.absentOr, found]
    exact rest.got
  | some a =>
    have field := field a rfl
    refine ⟨List.forall_mem_cons.2 ⟨field.canonical, rest.canonical⟩, ?_⟩
    have nullable : nullable? read (write a) = some (some a) := by
      rw [nullable?, field.reads, Option.map_some]
      exact field.present
    rw [Fields.absentOr, found, Json.optional_some]
    dsimp only
    rw [nullable]
    exact rest.got

end Yields

/-- A record comes back if it is written with the fields that it is read with, in their order. -/
theorem stores_record {get : Fields → Option α} (names : List String)
    (nodup : names.Nodup) (honest : ∀ name ∈ names, Key.Honest { text := name })
    (form : read = fun v => (v.record? names).bind get)
    (yields : Yields values (get (names.zip values)) a)
    (written : write a = .object (Fields.members (names.zip values)))
    (complete : names.length = values.length) :
    Stores write read a where
  canonical := by
    rw [written]
    refine .object (fun m inside => ?_) fun m inside => ?_
    · obtain ⟨f, inside', rfl⟩ := List.mem_map.1 inside
      exact honest f.1 (List.of_mem_zip inside').1
    · obtain ⟨f, inside', rfl⟩ := List.mem_map.1 inside
      exact yields.canonical f.2 (List.of_mem_zip inside').2
  present := by rw [written]; nofun
  reads := by
    have fields : (Fields.members (names.zip values)).map (fun m => (m.1.text, m.2)) =
        names.zip values := by
      rw [Fields.members, List.map_map]
      exact List.map_id _
    have known : (names.zip values).filter (fun f => names.contains f.1) = names.zip values := by
      refine List.filter_eq_self.2 fun f inside => ?_
      simpa using (List.of_mem_zip inside).1
    have once : ((names.zip values).map Prod.fst).Nodup := by
      rwa [List.map_fst_zip (Nat.le_of_eq complete)]
    simp only [form, written, record?, fields, known, if_pos once]
    exact yields.got

end GroupedTables.Json
