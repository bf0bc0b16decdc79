import GroupedTables.Catalog.Definition
import GroupedTables.Proofs.Catalog.Intact
import Mathlib.Data.List.Nodup
import Mathlib.Data.List.Pairwise

/-!
# The columns of a table

A column that is added comes last and gets the position it comes at; a column that is changed
keeps its place. What a table draws from is read off its columns in order, so a change of one
column replaces at most one sequence among them.
-/

namespace GroupedTables

namespace Table

variable {t : Table} {name : String} {column : Column} {f : Column → Column}

def columnNames (t : Table) : List String := t.columns.map (·.name)

@[simp] theorem body_columnNames : t.body.columnNames = t.columnNames := rfl

theorem column?_isSome_iff : (t.column? name).isSome = true ↔ name ∈ t.columnNames := by
  simp [column?, columnNames, List.find?_isSome]

theorem typeOf?_isSome_iff : (t.typeOf? name).isSome = true ↔ name ∈ t.columnNames := by
  rw [typeOf?, Option.isSome_map, column?_isSome_iff]

theorem missingColumn?_eq_none_iff {names : List String} :
    t.missingColumn? names = none ↔ ∀ x ∈ names, x ∈ t.columnNames := by
  simp [missingColumn?, List.find?_eq_none, ← column?_isSome_iff, Option.isSome_iff_ne_none]

theorem name_of_column? (found : t.column? name = some column) : column.name = name := by
  simpa using List.find?_some found

theorem index?_isSome_iff : (t.index? name).isSome = true ↔ name ∈ t.indexes.map (·.name) := by
  simp [index?, List.find?_isSome]

theorem index?_eq_none_iff : t.index? name = none ↔ name ∉ t.indexes.map (·.name) := by
  rw [← index?_isSome_iff, Option.not_isSome_iff_eq_none]

@[simp] theorem columnNames_withColumn :
    (t.withColumn column).columnNames = t.columnNames ++ [column.name] := by
  simp [columnNames, withColumn]

@[simp] theorem sequenceIds_withColumn :
    (t.withColumn column).sequenceIds = t.sequenceIds ++ column.identity.toList := by
  cases generated : column.identity <;> simp [sequenceIds, withColumn, generated]

theorem Positioned.withColumn (h : t.Positioned) : (t.withColumn column).Positioned := by
  unfold Positioned at h ⊢
  simp only [Table.withColumn, List.map_append, h, List.length_append, List.length_singleton,
    List.range_succ, List.map_cons, List.map_nil]

theorem positioned_renumbered (t : Table) : t.renumbered.Positioned := by
  refine positioned_iff.2 fun i column there => ?_
  simp only [renumbered, List.getElem?_mapIdx, Option.map_eq_some_iff] at there
  obtain ⟨_, _, rfl⟩ := there
  rfl

@[simp] theorem length_columns_withColumnChanged :
    (t.withColumnChanged name f).columns.length = t.columns.length := by
  have general (columns : List Column) :
      (modifyFirst (·.name == name) f columns).length = columns.length := by
    induction columns with
    | nil => rfl
    | cons a rest ih =>
      rw [modifyFirst]
      split
      · rfl
      · exact congrArg Nat.succ ih
  exact general t.columns

/-- A changed column keeps its place among the others. -/
theorem withColumnChanged_split (found : t.column? name = some column) :
    ∃ front back, t.columns = front ++ column :: back ∧
      (t.withColumnChanged name f).columns = front ++ f column :: back := by
  obtain ⟨named, front, back, columns, first⟩ := List.find?_eq_some_iff_append.1 found
  refine ⟨front, back, columns, ?_⟩
  rw [withColumnChanged, columns]
  clear columns found
  induction front with
  | nil => simp only [List.nil_append, modifyFirst, named, if_true]
  | cons a front ih =>
    have other : (a.name == name) = false := by simpa using first a (.head _)
    have rest := ih fun b inside => first b (.tail _ inside)
    simp only [List.cons_append, modifyFirst, other, Bool.false_eq_true, if_false]
    exact congrArg (a :: ·) rest

/-- Where no two columns have one name, changing the first of a name is changing all of it. -/
theorem columns_withColumnChanged (distinct : t.columnNames.Nodup) :
    (t.withColumnChanged name f).columns =
      t.columns.map fun c => if c.name = name then f c else c := by
  have general (columns : List Column) (distinct : (columns.map (·.name)).Nodup) :
      modifyFirst (·.name == name) f columns =
        columns.map fun c => if c.name = name then f c else c := by
    induction columns with
    | nil => rfl
    | cons c rest ih =>
      obtain ⟨fresh, distinct⟩ := List.nodup_cons.1 distinct
      by_cases named : c.name = name
      · have others : rest.map (fun c => if c.name = name then f c else c) = rest := by
          refine (List.map_congr_left fun d inside => if_neg fun same => fresh ?_).trans
            (List.map_id' rest)
          exact List.mem_map.2 ⟨d, inside, same.trans named.symm⟩
        rw [modifyFirst, if_pos (by simpa using named), List.map_cons, if_pos named, others]
      · rw [modifyFirst, if_neg (by simpa using named), List.map_cons, if_neg named, ih distinct]
  exact general t.columns distinct

theorem columnNames_withColumnChanged (found : t.column? name = some column)
    (same : (f column).name = column.name) :
    (t.withColumnChanged name f).columnNames = t.columnNames := by
  obtain ⟨front, back, before, after⟩ := withColumnChanged_split (f := f) found
  simp only [columnNames, before, after, List.map_append, List.map_cons, same]

theorem Positioned.withColumnChanged (h : t.Positioned) (found : t.column? name = some column)
    (same : (f column).position = column.position) : (t.withColumnChanged name f).Positioned := by
  obtain ⟨front, back, before, after⟩ := withColumnChanged_split (f := f) found
  unfold Positioned at h ⊢
  rw [before] at h
  simpa only [after, List.map_append, List.map_cons, same, List.length_append,
    List.length_cons] using h

theorem sequenceIds_withColumnChanged (found : t.column? name = some column) :
    ∃ front back, t.sequenceIds = front ++ column.identity.toList ++ back ∧
      (t.withColumnChanged name f).sequenceIds = front ++ (f column).identity.toList ++ back := by
  obtain ⟨front, back, before, after⟩ := withColumnChanged_split (f := f) found
  refine ⟨front.filterMap (·.identity), back.filterMap (·.identity), ?_, ?_⟩
  · cases generated : column.identity <;> simp [sequenceIds, before, generated]
  · cases generated : (f column).identity <;> simp [sequenceIds, after, generated]

/-- Replacing one member by another that is new, or by none, leaves what is distinct distinct. -/
theorem nodup_of_replaced {α : Type} {front back : List α} {o o' : Option α}
    (distinct : (front ++ o.toList ++ back).Nodup)
    (fresh : ∀ a ∈ o', o = some a ∨ a ∉ front ++ o.toList ++ back) :
    (front ++ o'.toList ++ back).Nodup := by
  have others : (front ++ back).Nodup := by
    refine distinct.sublist ?_
    rw [List.append_assoc]
    exact (List.Sublist.refl _).append (List.sublist_append_right _ _)
  cases o' with
  | none =>
    rw [Option.toList_none, List.append_nil]
    exact others
  | some a =>
    obtain rfl | fresh := fresh a rfl
    · exact distinct
    rw [Option.toList_some, List.append_assoc, List.singleton_append, List.nodup_middle]
    refine List.nodup_cons.2 ⟨fun inside => fresh ?_, others⟩
    simp only [List.mem_append] at inside ⊢
    exact inside.elim (fun inside => .inl (.inl inside)) .inr

end Table

end GroupedTables
