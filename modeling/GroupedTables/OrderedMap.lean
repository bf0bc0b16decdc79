/-!
# Maps that remember the order of insertion

A map from ids to values that is walked in the order in which its keys first came in. A
value put under a key that is there takes the place of the old one; removing a key leaves
the order of the others alone. That no key occurs twice is part of the type, so looking a
key up and walking the entries always tell the same story.
-/

namespace GroupedTables

/-- A map from ids to values, in order of insertion. -/
structure OrderedMap (α : Type) where
  entries : List (Nat × α)
  nodup : (entries.map Prod.fst).Nodup

namespace OrderedMap

variable {α : Type}

/-- Maps are equal if they have the same entries in the same order. -/
@[ext] theorem ext {a b : OrderedMap α} (h : a.entries = b.entries) : a = b := by
  cases a; cases b; cases h; rfl

instance [DecidableEq α] : DecidableEq (OrderedMap α) := fun a b =>
  if h : a.entries = b.entries then isTrue (ext h) else isFalse fun e => h (e ▸ rfl)

def empty : OrderedMap α := ⟨[], by simp⟩

instance : Inhabited (OrderedMap α) := ⟨empty⟩

instance : EmptyCollection (OrderedMap α) := ⟨empty⟩

def keys (m : OrderedMap α) : List Nat := m.entries.map Prod.fst

def values (m : OrderedMap α) : List α := m.entries.map Prod.snd

def size (m : OrderedMap α) : Nat := m.entries.length

def get? (m : OrderedMap α) (key : Nat) : Option α := m.entries.lookup key

def contains (m : OrderedMap α) (key : Nat) : Bool := (m.get? key).isSome

/-- Applies a function to every value. -/
def map (m : OrderedMap α) (f : Nat → α → α) : OrderedMap α :=
  ⟨m.entries.map fun e => (e.1, f e.1 e.2), by
    have h : (m.entries.map fun e => (e.1, f e.1 e.2)).map Prod.fst = m.entries.map Prod.fst := by
      simp [List.map_map, Function.comp_def]
    rw [h]; exact m.nodup⟩

/-- Applies a function to the value under a key, if it is there. -/
def modify (m : OrderedMap α) (key : Nat) (f : α → α) : OrderedMap α :=
  m.map fun k v => if k = key then f v else v

/-- Keeps the entries that pass a test. -/
def filter (m : OrderedMap α) (p : Nat → α → Bool) : OrderedMap α :=
  ⟨m.entries.filter fun e => p e.1 e.2, m.nodup.sublist (List.filter_sublist.map _)⟩

def erase (m : OrderedMap α) (key : Nat) : OrderedMap α := m.filter fun k _ => k != key

/-- The first entry answers for its key, the others for any other. -/
theorem lookup_entry (e : Nat × α) (rest : List (Nat × α)) (key : Nat) :
    (e :: rest).lookup key = if key = e.1 then some e.2 else rest.lookup key := by
  rw [List.lookup_cons]
  by_cases h : key = e.1
  · simp [h]
  · rw [beq_false_of_ne h, if_neg h]

theorem lookup_eq_none_iff {entries : List (Nat × α)} {key : Nat} :
    entries.lookup key = none ↔ key ∉ entries.map Prod.fst := by
  induction entries with
  | nil => simp
  | cons e rest ih =>
    rw [lookup_entry]
    by_cases h : key = e.1
    · simp [h]
    · simp [h, ih]

/-- Puts an entry at the end, under a key that is not there yet. -/
def append (m : OrderedMap α) (key : Nat) (value : α) (h : m.get? key = none) : OrderedMap α :=
  ⟨m.entries ++ [(key, value)], by
    have hk := lookup_eq_none_iff.1 h
    rw [List.map_append, List.nodup_append]
    refine ⟨m.nodup, by simp, ?_⟩
    intro a ha b hb hab
    simp at hb
    subst hb; subst hab
    exact hk ha⟩

/-- Puts a value under a key: in place of the old one, or at the end. -/
def insert (m : OrderedMap α) (key : Nat) (value : α) : OrderedMap α :=
  if h : m.get? key = none then m.append key value h else m.modify key fun _ => value

/-- Puts a value under a key unless there is one already. -/
def insertNew (m : OrderedMap α) (key : Nat) (value : α) : OrderedMap α :=
  if h : m.get? key = none then m.append key value h else m

/-- The map with these entries, put in one after the other. -/
def ofList (entries : List (Nat × α)) : OrderedMap α :=
  entries.foldl (fun m e => m.insert e.1 e.2) empty

/-- Whether two maps hold the same values under the same keys, in whatever order. -/
def sameEntries [DecidableEq α] (a b : OrderedMap α) : Bool :=
  a.size == b.size && a.entries.all fun e => decide (b.get? e.1 = some e.2)

@[simp] theorem entries_empty : (empty : OrderedMap α).entries = [] := rfl

@[simp] theorem get?_empty (key : Nat) : (empty : OrderedMap α).get? key = none := rfl

@[simp] theorem keys_map (m : OrderedMap α) (f : Nat → α → α) : (m.map f).keys = m.keys := by
  simp [keys, map, List.map_map, Function.comp_def]

@[simp] theorem keys_modify (m : OrderedMap α) (key : Nat) (f : α → α) :
    (m.modify key f).keys = m.keys := keys_map ..

theorem get?_eq_none_iff {m : OrderedMap α} {key : Nat} : m.get? key = none ↔ key ∉ m.keys :=
  lookup_eq_none_iff

theorem contains_iff {m : OrderedMap α} {key : Nat} : m.contains key = true ↔ key ∈ m.keys := by
  rw [contains, Option.isSome_iff_ne_none, ne_eq, get?_eq_none_iff, Decidable.not_not]

@[simp] theorem get?_map (m : OrderedMap α) (f : Nat → α → α) (key : Nat) :
    (m.map f).get? key = (m.get? key).map (f key) := by
  have general (entries : List (Nat × α)) :
      (entries.map fun e => (e.1, f e.1 e.2)).lookup key = (entries.lookup key).map (f key) := by
    induction entries with
    | nil => rfl
    | cons e rest ih =>
      rw [List.map_cons, lookup_entry, lookup_entry, ih]
      by_cases h : key = e.1
      · simp [h]
      · simp [h]
  exact general m.entries

/-- A change under one key shows under that key and no other. -/
theorem get?_modify (m : OrderedMap α) (key k : Nat) (f : α → α) :
    (m.modify key f).get? k = if k = key then (m.get? k).map f else m.get? k := by
  rw [modify, get?_map]
  by_cases h : k = key
  · simp [h]
  · simp [h]

theorem get?_append (m : OrderedMap α) (key k : Nat) (value : α) (h : m.get? key = none) :
    (m.append key value h).get? k = if k = key then some value else m.get? k := by
  have general (entries : List (Nat × α)) (hk : entries.lookup key = none) :
      (entries ++ [(key, value)]).lookup k = if k = key then some value else entries.lookup k := by
    induction entries with
    | nil => rw [List.nil_append, lookup_entry, List.lookup_nil]
    | cons e rest ih =>
      rw [lookup_entry] at hk
      by_cases hke : key = e.1
      · simp [hke] at hk
      · rw [if_neg hke] at hk
        rw [List.cons_append, lookup_entry, lookup_entry, ih hk]
        by_cases hkk : k = e.1
        · rw [if_pos hkk, if_pos hkk, if_neg fun h => hke (h.symm.trans hkk)]
        · rw [if_neg hkk, if_neg hkk]
  exact general m.entries h

/-- Under the key that was put in there is the new value, under every other what there was. -/
theorem get?_insert (m : OrderedMap α) (key k : Nat) (value : α) :
    (m.insert key value).get? k = if k = key then some value else m.get? k := by
  unfold insert
  split
  · exact get?_append ..
  · rename_i h
    rw [get?_modify]
    by_cases hk : k = key
    · subst hk
      obtain ⟨v, hv⟩ := Option.ne_none_iff_exists'.1 h
      simp [hv]
    · simp [hk]

/-- A removed key is gone, and no other is. -/
theorem get?_erase (m : OrderedMap α) (key k : Nat) :
    (m.erase key).get? k = if k = key then none else m.get? k := by
  have general (entries : List (Nat × α)) :
      (entries.filter fun e => e.1 != key).lookup k =
        if k = key then none else entries.lookup k := by
    induction entries with
    | nil => simp
    | cons e rest ih =>
      by_cases h : e.1 = key
      · rw [List.filter_cons_of_neg (by simp [h]), ih]
        rw [lookup_entry, h]
        by_cases hk : k = key
        · simp [hk]
        · simp [hk]
      · rw [List.filter_cons_of_pos (by simpa using h), lookup_entry, lookup_entry, ih]
        by_cases hke : k = e.1
        · rw [if_pos hke, if_pos hke, if_neg fun hk => h (hke.symm.trans hk)]
        · rw [if_neg hke, if_neg hke]
  exact general m.entries

end OrderedMap

end GroupedTables
