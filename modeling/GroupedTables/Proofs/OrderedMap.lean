import GroupedTables.OrderedMap

/-!
# What a map holds after a change

A map is read in two ways, by key and as a walk over its entries. The lemmas here say for
each change of a map what either way finds afterwards, so that no later proof goes back to
the list of entries. A map whose keys are the numbers its values carry is `Keyed`; every
change that the edits of a catalog make keeps it so.
-/

namespace GroupedTables.OrderedMap

variable {α : Type} {m : OrderedMap α} {k key : Nat} {v value : α}

theorem get?_eq_some_iff : m.get? k = some v ↔ (k, v) ∈ m.entries := by
  obtain ⟨entries, nodup⟩ := m
  change entries.lookup k = some v ↔ (k, v) ∈ entries
  induction entries with
  | nil => simp
  | cons e rest ih =>
    have fresh : e.1 ∉ rest.map Prod.fst := (List.nodup_cons.1 nodup).1
    rw [lookup_entry, List.mem_cons]
    by_cases h : k = e.1
    · have absent : (k, v) ∉ rest := fun inside => fresh (h ▸ List.mem_map_of_mem inside)
      simp only [if_pos h, absent, or_false]
      constructor
      · intro same
        rw [h, ← Option.some.inj same]
      · intro same
        rw [← same]
    · have other : (k, v) ≠ e := fun same => h (by rw [← same])
      simp only [if_neg h, other, false_or]
      exact ih (List.nodup_cons.1 nodup).2

theorem mem_values_iff : v ∈ m.values ↔ ∃ k, m.get? k = some v := by
  simp only [values, List.mem_map, Prod.exists, get?_eq_some_iff, exists_eq_right]

theorem mem_values (h : m.get? k = some v) : v ∈ m.values := mem_values_iff.2 ⟨k, h⟩

theorem mem_keys_iff : k ∈ m.keys ↔ ∃ v, m.get? k = some v := by
  simp only [keys, List.mem_map, Prod.exists, get?_eq_some_iff, exists_and_right, exists_eq_right]

theorem contains_iff_exists : m.contains k = true ↔ ∃ v, m.get? k = some v :=
  contains_iff.trans mem_keys_iff

theorem contains_of_get? (h : m.get? k = some v) : m.contains k = true :=
  contains_iff_exists.2 ⟨v, h⟩

theorem contains_eq_false_iff : m.contains k = false ↔ m.get? k = none := by
  simp [contains]

/-- The entries are found again by going through the keys. -/
theorem filterMap_keys :
    (m.keys.filterMap fun k => (m.get? k).map fun v => (k, v)) = m.entries := by
  have walked (entries : List (Nat × α)) (found : ∀ e ∈ entries, m.get? e.1 = some e.2) :
      ((entries.map Prod.fst).filterMap fun k => (m.get? k).map fun v => (k, v)) = entries := by
    induction entries with
    | nil => rfl
    | cons e rest ih => simp [found e (.head _), ih fun e inside => found e (.tail _ inside)]
  exact walked m.entries fun e inside => get?_eq_some_iff.2 inside

/-- Maps with the same keys in the same order and the same values under them are equal. -/
theorem ext_get? {m' : OrderedMap α} (keys : m.keys = m'.keys) (same : ∀ k, m.get? k = m'.get? k) :
    m = m' :=
  ext (by rw [← filterMap_keys, ← filterMap_keys (m := m'), keys, funext same])

@[simp] theorem entries_map (f : Nat → α → α) :
    (m.map f).entries = m.entries.map fun e => (e.1, f e.1 e.2) := rfl

@[simp] theorem entries_filter (p : Nat → α → Bool) :
    (m.filter p).entries = m.entries.filter fun e => p e.1 e.2 := rfl

@[simp] theorem entries_append (h : m.get? key = none) :
    (m.append key value h).entries = m.entries ++ [(key, value)] := rfl

theorem insert_of_fresh (h : m.get? key = none) : m.insert key value = m.append key value h := by
  rw [insert, dif_pos h]

@[simp] theorem values_append (h : m.get? key = none) :
    (m.append key value h).values = m.values ++ [value] := by
  simp [values]

theorem map_map (f g : Nat → α → α) : (m.map f).map g = m.map fun k v => g k (f k v) :=
  ext (by simp [List.map_map, Function.comp_def])

/-- Two functions that agree on what the map holds change it alike. -/
theorem map_congr {f g : Nat → α → α} (h : ∀ k v, m.get? k = some v → f k v = g k v) :
    m.map f = m.map g := by
  refine ext (List.map_congr_left fun e inside => ?_)
  rw [h e.1 e.2 (get?_eq_some_iff.2 inside)]

theorem map_eq_self {f : Nat → α → α} (h : ∀ k v, m.get? k = some v → f k v = v) :
    m.map f = m := by
  refine (map_congr h).trans (ext ?_)
  simp

theorem filter_congr {p q : Nat → α → Bool} (h : ∀ k v, m.get? k = some v → p k v = q k v) :
    m.filter p = m.filter q :=
  ext (List.filter_congr fun e inside => h e.1 e.2 (get?_eq_some_iff.2 inside))

theorem filter_eq_self {p : Nat → α → Bool} (h : ∀ k v, m.get? k = some v → p k v = true) :
    m.filter p = m :=
  ext (List.filter_eq_self.2 fun e inside => h e.1 e.2 (get?_eq_some_iff.2 inside))

theorem filter_filter (p q : Nat → α → Bool) :
    (m.filter p).filter q = m.filter fun k v => p k v && q k v := by
  apply ext
  simp only [entries_filter, List.filter_filter]
  exact List.filter_congr fun e _ => Bool.and_comm _ _

/-- A filter that does not see what a function changes can come first. -/
theorem filter_map {f : Nat → α → α} {p : Nat → α → Bool} (h : ∀ k v, p k (f k v) = p k v) :
    (m.map f).filter p = (m.filter p).map f := by
  apply ext
  simp only [entries_map, entries_filter, List.filter_map]
  congr 1
  exact List.filter_congr fun e _ => h e.1 e.2

theorem erase_map (f : Nat → α → α) : (m.map f).erase key = (m.erase key).map f :=
  filter_map fun _ _ => rfl

theorem erase_of_fresh (h : m.get? key = none) : m.erase key = m := by
  apply filter_eq_self
  intro k v there
  have other : k ≠ key := fun same => by simp [← same, there] at h
  simpa using other

theorem erase_append (h : m.get? key = none) : (m.append key value h).erase key = m := by
  apply ext
  have same := congrArg entries (erase_of_fresh h)
  simp only [erase, entries_filter] at same
  simp [erase, same]

theorem get?_filter (p : Nat → α → Bool) : (m.filter p).get? k = (m.get? k).filter (p k) := by
  apply Option.ext
  intro v
  rw [get?_eq_some_iff, Option.filter_eq_some_iff, get?_eq_some_iff, entries_filter,
    List.mem_filter]

theorem get?_insertNew :
    (m.insertNew key value).get? k =
      if k = key then some ((m.get? key).getD value) else m.get? k := by
  unfold insertNew
  split
  case isTrue h => rw [get?_append, h]; rfl
  case isFalse h =>
    obtain ⟨v, there⟩ := Option.ne_none_iff_exists'.1 h
    by_cases same : k = key
    · simp [same, there]
    · simp [same]

/-- What is there stays, whatever else is put in. -/
theorem get?_foldl_insertNew {number : α → Nat} {values : List α} (there : m.get? k = some v) :
    (values.foldl (fun m v => m.insertNew (number v) v) m).get? k = some v := by
  induction values generalizing m with
  | nil => exact there
  | cons u rest ih =>
    apply ih
    rw [get?_insertNew]
    split
    case isTrue same => rw [← same, there, Option.getD_some]
    case isFalse => exact there

theorem exists_foldl_insertNew {number : α → Nat} {values : List α} (inside : v ∈ values) :
    ∃ u, (values.foldl (fun m v => m.insertNew (number v) v) m).get? (number v) = some u := by
  induction values generalizing m with
  | nil => cases inside
  | cons u rest ih =>
    obtain rfl | inside := List.mem_cons.1 inside
    · have first :
          (m.insertNew (number v) v).get? (number v) = some ((m.get? (number v)).getD v) := by
        rw [get?_insertNew, if_pos rfl]
      rw [List.foldl_cons]
      exact ⟨_, get?_foldl_insertNew first⟩
    · exact ih inside

/-- What is put in is among the values, under its number. -/
theorem get?_of_foldl_insertNew {number : α → Nat} {values : List α}
    (there : (values.foldl (fun m v => m.insertNew (number v) v) m).get? k = some v) :
    m.get? k = some v ∨ v ∈ values ∧ number v = k := by
  induction values generalizing m with
  | nil => exact .inl there
  | cons u rest ih =>
    obtain old | ⟨inside, own⟩ := ih there
    · rw [get?_insertNew] at old
      split at old
      case isTrue same =>
        cases found : m.get? (number u) with
        | none =>
          rw [found, Option.getD_none] at old
          cases old
          exact .inr ⟨.head _, same.symm⟩
        | some w =>
          rw [found, Option.getD_some] at old
          exact .inl (same ▸ found.trans old)
      case isFalse => exact .inl old
    · exact .inr ⟨.tail _ inside, own⟩

/-- A map with what another map holds under some keys put in where it is missing. -/
def adding (m whole : OrderedMap α) (number : α → Nat) (keys : List Nat) : OrderedMap α :=
  (keys.filterMap whole.get?).foldl (fun m v => m.insertNew (number v) v) m

theorem adding_append (m whole : OrderedMap α) (number : α → Nat) (keys others : List Nat) :
    m.adding whole number (keys ++ others) =
      (m.adding whole number keys).adding whole number others := by
  rw [adding, List.filterMap_append, List.foldl_append, adding, adding]

/-- What is put in is what the other map holds under the keys, and nothing is displaced by it. -/
theorem get?_adding {whole : OrderedMap α} {number : α → Nat} {keys : List Nat}
    (own : ∀ ⦃k v⦄, whole.get? k = some v → number v = k)
    (within : ∀ ⦃k v⦄, m.get? k = some v → whole.get? k = some v) :
    (m.adding whole number keys).get? k = some v ↔
      m.get? k = some v ∨ whole.get? k = some v ∧ k ∈ keys := by
  have added ⦃u : α⦄ (there : (m.adding whole number keys).get? k = some u) :
      m.get? k = some u ∨ whole.get? k = some u ∧ k ∈ keys := by
    refine (get?_of_foldl_insertNew there).imp_right ?_
    rintro ⟨inside, rfl⟩
    obtain ⟨key, listed, found⟩ := List.mem_filterMap.1 inside
    rw [own found]
    exact ⟨found, listed⟩
  refine ⟨fun there => added there, ?_⟩
  rintro (old | ⟨found, listed⟩)
  · exact get?_foldl_insertNew old
  · obtain ⟨u, there⟩ : ∃ u, (m.adding whole number keys).get? (number v) = some u :=
      exists_foldl_insertNew (List.mem_filterMap.2 ⟨k, listed, found⟩)
    rw [own found] at there
    obtain old | ⟨found', _⟩ := added there
    · cases found.symm.trans (within old)
      exact there
    · cases found.symm.trans found'
      exact there

theorem get?_of_erase {key : Nat} (there : (m.erase key).get? k = some v) : m.get? k = some v := by
  rw [get?_erase] at there
  split at there
  · cases there
  · exact there

theorem get?_foldl_erase (keys : List Nat) :
    (keys.foldl erase m).get? k = if k ∈ keys then none else m.get? k := by
  induction keys generalizing m with
  | nil => simp
  | cons first rest ih =>
    rw [List.foldl_cons, ih, get?_erase]
    by_cases h : k = first <;> simp [h]

theorem foldl_erase_of_fresh {keys : List Nat} (absent : ∀ k ∈ keys, m.get? k = none) :
    keys.foldl erase m = m := by
  induction keys with
  | nil => rfl
  | cons first rest ih =>
    rw [List.foldl_cons, erase_of_fresh (absent first (.head _))]
    exact ih fun k inside => absent k (.tail _ inside)

/-- Changing values one key after the other is changing them all, if once is enough. -/
theorem foldl_modify {f : α → α} (once : ∀ v, f (f v) = f v) (keys : List Nat) :
    keys.foldl (fun m key => m.modify key f) m = m.map fun k v => if k ∈ keys then f v else v := by
  induction keys generalizing m with
  | nil => exact (map_eq_self fun _ _ _ => by simp).symm
  | cons first rest ih =>
    rw [List.foldl_cons, ih, modify, map_map]
    apply map_congr
    intro k v _
    by_cases here : k = first <;> by_cases later : k ∈ rest <;> simp [here, later, once]

/-- Entries under different keys are put in as they are. -/
theorem entries_ofList {entries : List (Nat × α)} (h : (entries.map Prod.fst).Nodup) :
    (ofList entries).entries = entries := by
  have general (before : OrderedMap α) (rest : List (Nat × α))
      (distinct : ((before.entries ++ rest).map Prod.fst).Nodup) :
      (rest.foldl (fun m e => m.insert e.1 e.2) before).entries = before.entries ++ rest := by
    induction rest generalizing before with
    | nil => simp
    | cons e rest ih =>
      have fresh : before.get? e.1 = none := by
        rw [get?_eq_none_iff, keys]
        rw [List.map_append, List.nodup_append] at distinct
        exact fun inside => distinct.2.2 _ inside e.1 (by simp) rfl
      rw [List.foldl_cons, ih (before.insert e.1 e.2)]
      · simp [insert_of_fresh fresh]
      · simpa [insert_of_fresh fresh] using distinct
  simpa [ofList] using general empty entries (by simpa using h)

/-- The values that pass a test, put in under their numbers, are the map less the others. -/
theorem ofList_filter {number : α → Nat} (same : ∀ k v, m.get? k = some v → number v = k)
    (p : α → Bool) :
    ofList ((m.values.filter p).map fun v => (number v, v)) = m.filter fun _ v => p v := by
  have entries : (m.values.filter p).map (fun v => (number v, v)) =
      m.entries.filter fun e => p e.2 := by
    rw [values, List.filter_map, List.map_map]
    refine (List.map_congr_left fun e inside => ?_).trans (List.map_id _)
    exact Prod.ext (same _ _ (get?_eq_some_iff.2 (List.mem_filter.1 inside).1)) rfl
  rw [entries]
  exact ext (entries_ofList (m.filter fun _ v => p v).nodup)

/-- A walk over a map whose keys are the numbers of its values meets each number once. -/
theorem nodup_numbers {number : α → Nat} (same : ∀ ⦃k v⦄, m.get? k = some v → number v = k) :
    (m.values.map number).Nodup := by
  have keys : m.values.map number = m.entries.map Prod.fst := by
    rw [values, List.map_map]
    exact List.map_congr_left fun e inside => same (get?_eq_some_iff.2 inside)
  exact keys ▸ m.nodup

/-- A map has no keys but those of another one and some above a bound. -/
def Gains (m m' : OrderedMap α) (bound : Nat) : Prop := ∀ ⦃k⦄, k ∈ m'.keys → k ∈ m.keys ∨ bound < k

namespace Gains

variable {m' m'' : OrderedMap α} {bound bound' : Nat}

theorem of_subset (fewer : m'.keys ⊆ m.keys) : m.Gains m' bound :=
  fun _ inside => .inl (fewer inside)

theorem refl (m : OrderedMap α) (bound : Nat) : m.Gains m bound := of_subset fun _ => id

theorem trans (h : m.Gains m' bound) (h' : m'.Gains m'' bound') (le : bound ≤ bound') :
    m.Gains m'' bound := by
  intro k inside
  obtain old | above := h' inside
  · exact h old
  · exact .inr (Nat.lt_of_le_of_lt le above)

theorem modify {f : α → α} : m.Gains (m.modify key f) bound :=
  of_subset fun _ inside => keys_modify m key f ▸ inside

theorem filter (p : Nat → α → Bool) : m.Gains (m.filter p) bound :=
  of_subset fun _ inside => (List.filter_sublist.map _).subset inside

theorem foldl_erase (keys : List Nat) : m.Gains (keys.foldl erase m) bound := by
  refine of_subset fun k inside => ?_
  obtain ⟨v, there⟩ := mem_keys_iff.1 inside
  rw [get?_foldl_erase] at there
  split at there
  · cases there
  · exact mem_keys_iff.2 ⟨v, there⟩

theorem insert (above : bound < key) : m.Gains (m.insert key value) bound := by
  intro k inside
  obtain ⟨v, there⟩ := mem_keys_iff.1 inside
  rw [get?_insert] at there
  split at there
  case isTrue same => exact .inr (same ▸ above)
  case isFalse => exact .inl (mem_keys_iff.2 ⟨v, there⟩)

end Gains

/-- The keys of a map are the numbers its values carry, and none is above a bound. -/
def Keyed (m : OrderedMap α) (number : α → Nat) (bound : Nat) : Prop :=
  ∀ ⦃k v⦄, m.get? k = some v → number v = k ∧ k ≤ bound

instance (m : OrderedMap α) (number : α → Nat) (bound : Nat) : Decidable (m.Keyed number bound) :=
  decidable_of_iff (∀ e ∈ m.entries, number e.2 = e.1 ∧ e.1 ≤ bound)
    ⟨fun h _ _ there => h _ (get?_eq_some_iff.1 there),
      fun h _ inside => h (get?_eq_some_iff.2 inside)⟩

namespace Keyed

variable {number : α → Nat} {bound bound' : Nat}

theorem fresh (h : m.Keyed number bound) (above : bound < key) : m.get? key = none := by
  cases there : m.get? key with
  | none => rfl
  | some v => exact absurd (h there).2 (Nat.not_le.2 above)

theorem mono (h : m.Keyed number bound) (le : bound ≤ bound') : m.Keyed number bound' :=
  fun _ _ there => ⟨(h there).1, Nat.le_trans (h there).2 le⟩

theorem map (h : m.Keyed number bound) {f : Nat → α → α}
    (same : ∀ k v, m.get? k = some v → number (f k v) = number v) :
    (m.map f).Keyed number bound := by
  intro k v there
  rw [get?_map] at there
  obtain ⟨u, hu, rfl⟩ := Option.map_eq_some_iff.1 there
  exact ⟨(same k u hu).trans (h hu).1, (h hu).2⟩

theorem modify (h : m.Keyed number bound) {f : α → α} (same : ∀ v, number (f v) = number v) :
    (m.modify key f).Keyed number bound := by
  apply h.map
  intro k v _
  split
  · exact same v
  · rfl

theorem filter (h : m.Keyed number bound) (p : Nat → α → Bool) :
    (m.filter p).Keyed number bound := by
  intro k v there
  rw [get?_filter, Option.filter_eq_some_iff] at there
  exact h there.1

theorem erase (h : m.Keyed number bound) : (m.erase key).Keyed number bound := h.filter _

theorem foldl_erase (h : m.Keyed number bound) (keys : List Nat) :
    (keys.foldl OrderedMap.erase m).Keyed number bound := by
  intro k v there
  rw [get?_foldl_erase] at there
  split at there
  · cases there
  · exact h there

theorem insert (h : m.Keyed number bound) (own : number value = key) (le : key ≤ bound) :
    (m.insert key value).Keyed number bound := by
  intro k v there
  rw [get?_insert] at there
  split at there
  case isTrue same => cases there; exact ⟨own.trans same.symm, same ▸ le⟩
  case isFalse => exact h there

theorem insertNew (h : m.Keyed number bound) (own : number value = key) (le : key ≤ bound) :
    (m.insertNew key value).Keyed number bound := by
  unfold OrderedMap.insertNew
  split
  case isTrue fresh => exact insert_of_fresh fresh ▸ h.insert own le
  case isFalse => exact h

theorem foldl_insertNew (h : m.Keyed number bound) {values : List α}
    (le : ∀ v ∈ values, number v ≤ bound) :
    (values.foldl (fun m v => m.insertNew (number v) v) m).Keyed number bound := by
  induction values generalizing m with
  | nil => exact h
  | cons v rest ih =>
    exact ih (h.insertNew rfl (le v (.head _))) fun u inside => le u (.tail _ inside)

theorem nodup_numbers (h : m.Keyed number bound) : (m.values.map number).Nodup :=
  OrderedMap.nodup_numbers fun _ _ there => (h there).1

end Keyed

end GroupedTables.OrderedMap
