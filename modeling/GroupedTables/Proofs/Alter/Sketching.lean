import GroupedTables.Proofs.Alter.Costs
import GroupedTables.Proofs.Alter.Sketch

/-!
# Drafts follow their sketches

Each edit of a draft does to the columns of its table what it does to their sketches. What carries
this through is that a new sequence is drawn from by one column only, and is there just as long as
that column draws from it; and that a live sequence goes when its column no longer draws from it.
-/

namespace GroupedTables

open GroupedTables.Action Catalog

variable {live c : Catalog} {current t : Table} {sketches : List Sketch} {sketch : Sketch}
  {column : Column} {f : Column → Column} {names : List String} {name : String} {s : SequenceId}
  {sequences sequences' : OrderedMap Sequence} {identity : Option SequenceId} {n : Nat}

namespace Supply

variable {supply : Supply}

/-- Only the new sequence that it draws from matters to a column. -/
theorem Meets.congr (h : supply.Meets live sequences identity)
    (same : ∀ s ∈ identity, live.nextId < s → ∀ q, sequences.get? s = some q →
      sequences'.get? s = some q) : supply.Meets live sequences' identity := by
  cases supply with
  | nothing => exact h
  | live id => exact h
  | renewed q | created q =>
    obtain ⟨s, rfl, above, there⟩ := h
    exact ⟨s, rfl, above, same s rfl above _ there⟩

/-- The sequence of a generated column is an old one, or it is there. -/
theorem Meets.exists_of_new (h : supply.Meets live sequences (some s)) (above : live.nextId < s) :
    ∃ q, sequences.get? s = some q := by
  cases supply with
  | nothing => cases h
  | live id =>
    obtain ⟨same, old⟩ := h
    cases same
    exact absurd above (Nat.not_lt.2 old)
  | renewed q | created q =>
    obtain ⟨_, same, _, there⟩ := h
    cases same
    exact ⟨_, there⟩

/-- A column that draws from a live sequence is to do so. -/
theorem Meets.eq_live (h : supply.Meets live sequences (some s)) (old : s ≤ live.nextId) :
    supply = .live s := by
  cases supply with
  | nothing => cases h
  | live id =>
    cases h.1
    rfl
  | renewed q | created q =>
    obtain ⟨_, same, above, _⟩ := h
    cases same
    exact absurd old (Nat.not_le.2 above)

/-- A new sequence supplies a column that draws from it. -/
theorem meets_supplying (above : live.nextId < c.nextId + 1) (q : Sequence) :
    (created q).Meets live (c.supplying q).sequences (some (c.nextId + 1)) :=
  ⟨_, rfl, above, get?_sequences_supplying.trans (if_pos rfl)⟩

/-- So does a sequence that takes the place of another one. -/
theorem Meets.counting {q : Sequence} {id : SequenceId} {increment : Int}
    (h : supply.Meets live sequences (some id)) (there : sequences.get? id = some q)
    (sourced : id ≤ live.nextId → live.sequences.get? id = some q)
    (above : live.nextId < c.nextId + 1) :
    (supply.counting live increment).Meets live (c.supplying { q with increment }).sequences
      (some (c.nextId + 1)) := by
  cases supply with
  | nothing => cases h
  | live id' =>
    obtain ⟨same, old⟩ := h
    cases same
    rw [Supply.counting, sourced old]
    exact meets_supplying above _
  | renewed q' | created q' =>
    obtain ⟨_, same, _, there'⟩ := h
    cases same
    cases there.symm.trans there'
    exact meets_supplying above _

end Supply

theorem Sketch.Fits.congr (h : sketch.Fits live sequences column)
    (same : ∀ s ∈ column.identity, live.nextId < s → ∀ q, sequences.get? s = some q →
      sequences'.get? s = some q) : sketch.Fits live sequences' column :=
  { h with supply := h.supply.congr same }

/-- Only the column of its name fits a sketch. -/
theorem Sketch.Fits.eq_of_column? (h : sketch.Fits live sequences column) {other : Column}
    (distinct : t.columnNames.Nodup) (listed : t.column? name = some other)
    (inside : column ∈ t.columns) (same : sketch.name = name) : column = other := by
  refine List.inj_on_of_nodup_map distinct inside (List.mem_of_find?_eq_some listed) ?_
  exact (h.name.trans same).trans (Table.name_of_column? listed).symm

/-- If a sequence is there, some other table draws from it. -/
def Catalog.SparesFor (x : TableId) (s : SequenceId) (c : Catalog) : Prop :=
  ∀ q, c.sequences.get? s = some q →
    ∃ k t, k ≠ x ∧ c.tables.get? k = some t ∧ s ∈ t.sequenceIds

theorem Catalog.SparesFor.revised {x : TableId} {f : Table → Table} (h : c.SparesFor x s)
    (kept : ∀ q, sequences.get? s = some q → c.sequences.get? s = some q) :
    SparesFor x s { c.editing x f with sequences, nextId := n } := by
  intro q there
  obtain ⟨k, t, other, there, drawn⟩ := h q (kept q there)
  exact ⟨k, t, other, (get?_editing.trans (if_neg other)).trans there, drawn⟩

/-- A column gives up what it draws from, and gets something to draw from. A sequence that it gives
up is gone, and one that it gets is new and drawn from by nobody yet. -/
structure Resupplied (live : Catalog) (drawn : List SequenceId)
    (sequences sequences' : OrderedMap Sequence) (given gotten : Option SequenceId) : Prop where
  source : ∀ ⦃s q⦄, sequences'.get? s = some q →
    sequences.get? s = some q ∧ (gotten = some s ∨ given ≠ some s) ∨
      live.nextId < s ∧ gotten = some s
  others : ∀ ⦃s q⦄, given ≠ some s → sequences.get? s = some q → sequences'.get? s = some q
  fresh : ∀ s ∈ gotten, given = some s ∨ s ∉ drawn
  gone : ∀ s ∈ given, gotten = some s ∨ sequences'.get? s = none

namespace Resupplied

variable {drawn : List SequenceId} {given gotten : Option SequenceId}

theorem refl : Resupplied live drawn sequences sequences given given where
  source _ _ there := .inl ⟨there, em _⟩
  others _ _ _ := id
  fresh _ same := .inl same
  gone _ same := .inl same

theorem erase : Resupplied live drawn sequences (sequences.erase s) (some s) none where
  source s' q there := by
    refine .inl ⟨OrderedMap.get?_of_erase there, .inr ?_⟩
    rintro ⟨⟩
    rw [OrderedMap.get?_erase, if_pos rfl] at there
    cases there
  others s' q other there := by
    rw [OrderedMap.get?_erase, if_neg fun same => other (congrArg some same.symm)]
    exact there
  fresh := nofun
  gone := by
    rintro _ ⟨⟩
    exact .inr (by rw [OrderedMap.get?_erase, if_pos rfl])

theorem supplying (numbered : c.Numbered) (above : live.nextId < c.nextId + 1)
    (fresh : c.nextId + 1 ∉ drawn) (q : Sequence) :
    Resupplied live drawn c.sequences (c.supplying q).sequences none (some (c.nextId + 1)) where
  source s q' there := by
    obtain rfl | there := Drafts.new_of_supplying there
    · exact .inr ⟨above, rfl⟩
    · exact .inl ⟨there, .inr nofun⟩
  others _ _ _ := get?_sequences_supplying_of_get? numbered
  fresh := by
    rintro _ ⟨⟩
    exact .inr fresh
  gone := nofun

/-- What is given up first is gone before something else is gotten. -/
theorem trans (h : Resupplied live drawn sequences sequences' given none)
    {sequences'' : OrderedMap Sequence}
    (h' : Resupplied live drawn sequences' sequences'' none gotten) :
    Resupplied live drawn sequences sequences'' given gotten where
  source s q there := by
    refine (h'.source there).imp_left fun ⟨there, _⟩ => ?_
    obtain ⟨there, kept⟩ | ⟨_, same⟩ := h.source there
    · exact ⟨there, .inr (kept.resolve_left nofun)⟩
    · cases same
  others s q other there := h'.others nofun (h.others other there)
  fresh s same := (h'.fresh s same).imp_left nofun
  gone s same := by
    have gone := (h.gone s same).resolve_left nofun
    refine or_iff_not_imp_right.2 fun there => ?_
    obtain ⟨q, there⟩ := Option.ne_none_iff_exists'.1 there
    obtain ⟨there, _⟩ | ⟨_, same⟩ := h'.source there
    · cases gone.symm.trans there
    · exact same

/-- No sequence of the live catalog comes back. -/
theorem of_le (h : Resupplied live drawn sequences sequences' given gotten) {q : Sequence}
    (old : s ≤ live.nextId) (there : sequences'.get? s = some q) : sequences.get? s = some q := by
  obtain ⟨there, _⟩ | ⟨above, _⟩ := h.source there
  · exact there
  · exact absurd above (Nat.not_lt.2 old)

end Resupplied

/-- The same of the members that pass a test. -/
theorem nodup_filter_of_replaced {α : Type} {p : α → Bool} {front back : List α} {o o' : Option α}
    (distinct : ((front ++ o.toList ++ back).filter p).Nodup)
    (fresh : ∀ a ∈ o', o = some a ∨ a ∉ front ++ o.toList ++ back) :
    ((front ++ o'.toList ++ back).filter p).Nodup := by
  simp only [List.filter_append, ← Option.toList_filter] at distinct ⊢
  refine Table.nodup_of_replaced distinct fun a inside => ?_
  obtain ⟨inside, passes⟩ := Option.filter_eq_some_iff.1 inside
  refine (fresh a inside).imp (fun same => ?_) fun outside inside => outside ?_
  · rw [same, Option.filter_some_pos passes]
  · simp only [Option.toList_filter, ← List.filter_append] at inside
    exact List.mem_of_mem_filter inside

/-- The table of a draft has columns as they were sketched. Every new sequence is that of one of
them, and a live sequence that a column no longer draws from is gone from the draft, unless some
other table draws from it. -/
structure Sketched (live : Catalog) (current : Table) (sketches : List Sketch) (t : Table)
    (c : Catalog) : Prop where
  there : c.tables.get? current.id = some t
  fits : List.Forall₂ (Sketch.Fits live c.sequences) sketches t.columns
  drawn : ∀ ⦃s q⦄, c.sequences.get? s = some q → live.nextId < s → s ∈ t.sequenceIds
  once : (t.sequenceIds.filter fun s => live.nextId < s).Nodup
  origin : ∀ sketch ∈ sketches, ∀ a ∈ sketch.origin, a ∈ current.columns
  retired : ∀ sketch ∈ sketches, ∀ a ∈ sketch.origin, ∀ s ∈ a.identity,
    sketch.supply = .live s ∨ c.SparesFor current.id s

namespace Sketched

variable (h : Sketched live current sketches t c)

include h

theorem columnNames_eq : t.columnNames = sketches.map (·.name) := by
  rw [Table.columnNames, ← List.forall₂_eq_eq_eq, List.forall₂_map_left_iff,
    List.forall₂_map_right_iff]
  exact (h.fits.imp fun _ _ fits => fits.name).flip

/-- A new sequence that a column draws from is there. -/
theorem exists_sequence (inside : s ∈ t.sequenceIds) (above : live.nextId < s) :
    ∃ q, c.sequences.get? s = some q := by
  obtain ⟨column, listed, generated⟩ := List.mem_filterMap.1 inside
  obtain ⟨sketch, _, fits⟩ := exists_of_forall₂ h.fits listed
  exact (generated ▸ fits.supply).exists_of_new above

/-- No two columns draw from one new sequence. -/
theorem eq_of_identity {other : Column} (inside : column ∈ t.columns) (inside' : other ∈ t.columns)
    (generated : column.identity = some s) (generated' : other.identity = some s)
    (above : live.nextId < s) : column = other := by
  have once := h.once
  rw [Table.sequenceIds, List.filter_filterMap] at once
  refine eq_of_nodup_filterMap (b := s) once inside inside' ?_ ?_
  · rw [generated, Option.filter_some, if_pos (decide_eq_true above)]
  · rw [generated', Option.filter_some, if_pos (decide_eq_true above)]

variable (wf : live.WellFormed) (found : live.tables.get? current.id = some current)

omit h in
include wf found in
/-- What a column of the table draws from is a live sequence. -/
theorem le_nextId {a : Column} (inside : a ∈ current.columns) (generated : a.identity = some s) :
    s ≤ live.nextId := by
  obtain ⟨q, there⟩ := wf.supplied found s (List.mem_filterMap.2 ⟨a, inside, generated⟩)
  exact (wf.numbered.sequences there).2

include wf found

/-- A column is added behind the others, with a sequence of its own if it has one. -/
theorem add (new : sketch.Fits live sequences column) (origin : sketch.origin = none)
    (supplied : Resupplied live t.sequenceIds c.sequences sequences none column.identity) :
    Sketched live current (sketches ++ [sketch]) (t.withColumn column)
      { c.editing current.id (·.withColumn column) with sequences, nextId := n } where
  there := get?_editing_self h.there
  fits := by
    refine List.rel_append (h.fits.imp fun _ _ fits => fits.congr fun s _ _ q there =>
      supplied.others nofun there) (.cons ?_ .nil)
    exact { new with }
  drawn s q there above := by
    rw [Table.sequenceIds_withColumn, List.mem_append, Option.mem_toList]
    exact (supplied.source there).imp (fun ⟨there, _⟩ => h.drawn there above) And.right
  once := by
    rw [Table.sequenceIds_withColumn, ← List.append_nil (_ ++ _)]
    refine nodup_filter_of_replaced (o := none) (by simpa using h.once) fun s drawn => .inr ?_
    simpa using (supplied.fresh s drawn).resolve_left nofun
  origin s inside := by
    obtain inside | inside := List.mem_append.1 inside
    · exact h.origin s inside
    · cases List.mem_singleton.1 inside
      simp [origin]
  retired s inside a there id generated := by
    obtain inside | inside := List.mem_append.1 inside
    · have old := le_nextId wf found (h.origin s inside a there) generated
      exact (h.retired s inside a there id generated).imp_right fun spared =>
        spared.revised fun q => supplied.of_le old
    · cases List.mem_singleton.1 inside
      rw [origin] at there
      cases there

section change

variable (distinct : t.columnNames.Nodup) (listed : t.column? name = some column)
  {m : ColumnModification}
  (revised : ∀ s : Sketch, s.Fits live c.sequences column →
    (s.modified live current.name m).Fits live sequences (f column))
  (supplied : Resupplied live t.sequenceIds c.sequences sequences column.identity
    (f column).identity)

include distinct listed revised supplied

omit wf found in
/-- The changed column is as it was sketched, and the others are as they were. -/
theorem fits_changed :
    List.Forall₂ (Sketch.Fits live sequences)
      (Sketch.edited live current.name sketches (.modify name m))
      (t.withColumnChanged name f).columns := by
  have inside := List.mem_of_find?_eq_some listed
  rw [Table.columns_withColumnChanged distinct, Sketch.edited, List.forall₂_map_left_iff,
    List.forall₂_map_right_iff]
  refine (forall₂_mem h.fits).imp fun s other member => ?_
  obtain ⟨fits, _, inside'⟩ := member
  by_cases same : s.name = name
  · obtain rfl := fits.eq_of_column? distinct listed inside' same
    rw [if_pos same, if_pos (fits.name.trans same)]
    exact revised s fits
  · -- A new sequence is drawn from once, so it is not the one that the column gives up.
    rw [if_neg same, if_neg fun named => same (fits.name.symm.trans named)]
    refine fits.congr fun id drawn above q there => supplied.others (fun drawn' => ?_) there
    obtain rfl := h.eq_of_identity inside' inside drawn drawn' above
    exact same (fits.name.symm.trans (Table.name_of_column? listed))

/-- What a column drew from at first it still draws from, or the sequence is gone or spared. -/
theorem retired_changed {s : Sketch} (there : s ∈ sketches) {a : Column} (origin : a ∈ s.origin)
    {id : SequenceId} (generated : a.identity = some id) :
    (if s.name = name then s.modified live current.name m else s).supply = .live id ∨
      Catalog.SparesFor current.id id
        { c.editing current.id (·.withColumnChanged name f) with sequences, nextId := n } := by
  have old := le_nextId wf found (h.origin s there a origin) generated
  obtain drawn | spared := h.retired s there a origin id generated
  · split
    case isTrue same =>
      -- The column drew from this sequence until now. It still does, or the sequence is gone.
      obtain ⟨other, inside', fits⟩ := exists_of_forall₂ h.fits.flip there
      obtain rfl := fits.eq_of_column? distinct listed inside' same
      have drawn : other.identity = some id := by
        have supply := fits.supply
        rw [drawn] at supply
        exact supply.1
      refine (supplied.gone id drawn).imp (fun kept => ?_) fun gone q there => ?_
      · exact (kept ▸ (revised s fits).supply).eq_live old
      · rw [gone] at there
        cases there
    case isFalse => exact .inl drawn
  · exact .inr (spared.revised fun q there => supplied.of_le old there)

/-- A column is changed. It may give up its sequence, and may get a new one. -/
theorem change :
    Sketched live current (Sketch.edited live current.name sketches (.modify name m))
      (t.withColumnChanged name f)
      { c.editing current.id (·.withColumnChanged name f) with sequences, nextId := n } := by
  obtain ⟨front, back, before, after⟩ := Table.sequenceIds_withColumnChanged (f := f) listed
  have origin (s : Sketch) :
      (if s.name = name then s.modified live current.name m else s).origin = s.origin := by
    split
    · exact Sketch.origin_modified
    · rfl
  refine ⟨get?_editing_self h.there, h.fits_changed distinct listed revised supplied,
    fun s q there above => ?_, ?_, fun s listed' => ?_, fun s listed' => ?_⟩
  · rw [after]
    obtain ⟨there, drawn | undrawn⟩ | ⟨_, drawn⟩ := supplied.source there
    · simp [drawn]
    · have inside := h.drawn there above
      rw [before] at inside
      simp only [List.mem_append, Option.mem_toList] at inside ⊢
      exact inside.imp_left fun inside => .inl (inside.resolve_right undrawn)
    · simp [drawn]
  · rw [after]
    refine nodup_filter_of_replaced (before ▸ h.once) fun s drawn => ?_
    rw [← before]
    exact supplied.fresh s drawn
  · obtain ⟨s, there, rfl⟩ := List.mem_map.1 listed'
    rw [origin]
    exact h.origin s there
  · obtain ⟨s, there, rfl⟩ := List.mem_map.1 listed'
    rw [origin]
    intro a first id generated
    exact h.retired_changed wf found distinct listed revised supplied there first generated

end change

/-- What an edit does to the columns is what it does to their sketches. -/
abbrev Follows {α : Type} (live : Catalog) (current : Table) (sketches : List Sketch)
    (act : Edit α) (c : Catalog) : Prop :=
  WP act (fun _ c => ∃ t, Sketched live current sketches t c) (fun _ _ => True) c

omit wf found in
/-- No column draws from the next sequence yet. -/
theorem next_fresh (drafts : Drafts live current names c) :
    live.nextId < c.nextId + 1 ∧ c.nextId + 1 ∉ t.sequenceIds := by
  have above := Nat.lt_succ_of_le drafts.counter
  refine ⟨above, fun drawn => ?_⟩
  obtain ⟨q, there⟩ := h.exists_sequence drawn above
  exact Nat.not_succ_le_self _ (drafts.intact.sequences there).2

theorem follows_addColumn (drafts : Drafts live current names c) (d : ColumnDefinition) :
    Follows live current (Sketch.edited live current.name sketches (.add d))
      (Draft.addColumn current.id d) c := by
  have name : t.name = current.name := (drafts.drafted h.there).name
  obtain ⟨above, fresh⟩ := h.next_fresh drafts
  unfold Follows Draft.addColumn
  cases identity : d.identity with
  | none =>
    refine wp_addColumn h.there (fun _ _ _ => trivial) fun _ => ⟨_, h.add wf found
      ⟨rfl, rfl, rfl, ?_, ?_⟩ rfl .refl⟩
    · simp [Sketch.ofDefinition, identity]
    · simp [Sketch.ofDefinition, identity, Supply.Meets]
  | some i =>
    simp only [Draft.createIdentity, wp_bind, wp_get, wp_lift_of_ok (table_of_get? h.there),
      wp_of_ok addSequence_eq]
    refine wp_addColumn (c := c.supplying _) h.there (fun _ _ _ => trivial) fun _ => ⟨_,
      h.add wf found ⟨rfl, rfl, rfl, ?_, ?_⟩ rfl
        (.supplying drafts.intact.toNumbered above fresh _)⟩
    · simp [Sketch.ofDefinition, identity]
    · rw [Sketch.ofDefinition, identity, name]
      exact Supply.meets_supplying above _

/-- A column is changed and draws from what it drew from. -/
theorem follows_editColumn (drafts : Drafts live current names c)
    (listed : t.column? name = some column) {m : ColumnModification}
    (drawn : (f column).identity = column.identity)
    (revised : ∀ s : Sketch, s.Fits live c.sequences column →
      (s.modified live current.name m).Fits live c.sequences (f column)) :
    Follows live current (Sketch.edited live current.name sketches (.modify name m))
      (editColumn current.id name f) c :=
  (wp_editColumn h.there listed).2 ⟨_, h.change wf found (drafts.drafted h.there).distinct listed
    revised (drawn ▸ .refl)⟩

theorem follows_setDefault (drafts : Drafts live current names c)
    (listed : t.column? column.name = some column) (default : Option ColumnDefault) :
    Follows live current
      (Sketch.edited live current.name sketches (.modify column.name (.default default)))
      (Draft.setDefault current.id column default) c := by
  unfold Draft.setDefault
  cases generated : column.identity with
  | none =>
    refine h.follows_editColumn wf found drafts listed generated.symm fun s fits => ?_
    exact ⟨fits.name, fits.descriptor, fits.nullable, rfl, rfl⟩
  | some id =>
    simp only [Follows, wp_bind, wp_discard]
    refine wp_removeSequence (fun _ => trivial) fun q there => ?_
    refine (wp_editColumn (by exact h.there) listed).2 ⟨_, h.change wf found
      (drafts.drafted h.there).distinct listed (fun s fits => ?_) (generated ▸ .erase)⟩
    exact ⟨fits.name, fits.descriptor, fits.nullable, rfl, rfl⟩

theorem follows_create (drafts : Drafts live current names c)
    (listed : t.column? column.name = some column) (i : Identity) :
    Follows live current
      (Sketch.edited live current.name sketches (.modify column.name (.identity (.create i))))
      (Draft.changeIdentity current.id t.name column (.create i)) c := by
  have name : t.name = current.name := (drafts.drafted h.there).name
  obtain ⟨above, fresh⟩ := h.next_fresh drafts
  simp only [Follows, Draft.changeIdentity, Draft.createIdentity, wp_bind, wp_get, wp_ite,
    wp_lift_of_ok (table_of_get? h.there), wp_of_ok addSequence_eq]
  refine ⟨fun _ => trivial, fun plain => ?_⟩
  have plain : column.identity = none := by simpa using plain
  refine (wp_editColumn (by exact h.there) listed).2 ⟨_, h.change wf found
    (drafts.drafted h.there).distinct listed (fun s fits => ?_)
    (plain ▸ .supplying drafts.intact.toNumbered above fresh _)⟩
  refine ⟨fits.name, fits.descriptor, fits.nullable, rfl, ?_⟩
  rw [Sketch.modified, Supply.ofIdentity, ← fits.name, ← name]
  exact Supply.meets_supplying above _

theorem follows_setIncrement (drafts : Drafts live current names c)
    (listed : t.column? column.name = some column) (increment : Int) :
    Follows live current (Sketch.edited live current.name sketches
        (.modify column.name (.identity (.setIncrement increment))))
      (Draft.changeIdentity current.id t.name column (.setIncrement increment)) c := by
  obtain ⟨above, fresh⟩ := h.next_fresh drafts
  unfold Follows Draft.changeIdentity
  cases generated : column.identity with
  | none => trivial
  | some id =>
    simp only [wp_bind]
    refine wp_removeSequence (fun _ => trivial) fun q there => ?_
    rw [wp_bind, wp_of_ok addSequence_eq]
    have supplied : Resupplied live t.sequenceIds c.sequences
        (({ c with sequences := c.sequences.erase id } : Catalog).supplying
          { q with increment }).sequences column.identity (some (c.nextId + 1)) := by
      rw [generated]
      exact .trans .erase (.supplying drafts.intact.unsupplied.toNumbered above fresh _)
    refine (wp_editColumn (by exact h.there) listed).2 ⟨_, h.change wf found
      (drafts.drafted h.there).distinct listed (fun s fits => ?_) supplied⟩
    refine ⟨fits.name, fits.descriptor, fits.nullable, fits.default, ?_⟩
    exact (generated ▸ fits.supply).counting there (drafts.sourced there) above

/-- The same, in the run of a statement. -/
abbrev FollowsRun {α : Type} (live : Catalog) (current : Table) (sketches : List Sketch)
    (act : Action Draft α) (d : Draft) : Prop :=
  WP act (fun _ d => ∃ t, Sketched live current sketches t d.catalog) (fun _ _ => True) d

omit h in
theorem follows_setType {d : Draft} (h : Sketched live current sketches t d.catalog)
    (drafts : Drafts live current names d.catalog) (listed : t.column? column.name = some column)
    (descriptor : TypeDescriptor) :
    FollowsRun live current
      (Sketch.edited live current.name sketches (.modify column.name (.type descriptor)))
      (Draft.setType current.id column descriptor) d := by
  have change {default : Option ColumnDefault} {k : Context}
      (fitted : default = column.default.map (Sketch.fittedDefault descriptor)) :
      FollowsRun live current
        (Sketch.edited live current.name sketches (.modify column.name (.type descriptor)))
        (Draft.edit (Catalog.editColumn current.id column.name
          ({ · with descriptor, default }))) ⟨d.catalog, k⟩ := by
    refine wp_within.2 (h.follows_editColumn wf found drafts listed rfl fun s fits => ?_)
    refine ⟨fits.name, rfl, fits.nullable, ?_, fits.supply⟩
    rw [Sketch.modified, ← fits.default]
    exact fitted
  unfold FollowsRun Draft.setType
  dsimp only
  split
  case h_1 text literal =>
    rw [wp_bind, wp_map]
    refine wp_within.2 ((Narrowing.wp_literalFor _ _ _).mono (fun kept k same => ?_)
      fun _ _ => False.elim)
    exact change (by rw [literal, same]; rfl)
  case h_2 other =>
    refine change (k := d.context) ?_
    cases default : column.default with
    | none => rfl
    | some kept =>
      cases kept with
      | literal text => exact absurd default (other text)
      | function => rfl

omit h in
theorem follows_modifyColumn {d : Draft} (h : Sketched live current sketches t d.catalog)
    (drafts : Drafts live current names d.catalog) (name : String) (m : ColumnModification) :
    FollowsRun live current (Sketch.edited live current.name sketches (.modify name m))
      (Draft.modifyColumn current.id name m) d := by
  unfold FollowsRun Draft.modifyColumn
  simp only [wp_bind, wp_get, wp_lift_of_ok (table_of_get? h.there)]
  cases listed : t.column? name with
  | none => trivial
  | some column =>
    obtain rfl := Table.name_of_column? listed
    cases m with
    | default value => exact wp_within.2 (h.follows_setDefault wf found drafts listed value)
    | null =>
      exact wp_within.2 (h.follows_editColumn wf found drafts listed rfl fun s fits =>
        { fits with nullable := rfl })
    | notNull =>
      exact wp_within.2 (h.follows_editColumn wf found drafts listed rfl fun s fits =>
        { fits with nullable := rfl })
    | type descriptor => exact follows_setType wf found h drafts listed descriptor
    | identity change =>
      cases change with
      | create i => exact wp_within.2 (h.follows_create wf found drafts listed i)
      | setIncrement n => exact wp_within.2 (h.follows_setIncrement wf found drafts listed n)
      | restart => trivial

omit h in
/-- Every edit of columns does to the table what it does to the sketches. -/
theorem follows_applyColumnEdit {d : Draft} (h : Sketched live current sketches t d.catalog)
    (drafts : Drafts live current names d.catalog) (e : ColumnEdit) :
    FollowsRun live current (Sketch.edited live current.name sketches e)
      (Draft.applyColumnEdit current.id e) d := by
  cases e with
  | add definition => exact wp_within.2 (h.follows_addColumn wf found drafts definition)
  | modify name m => exact follows_modifyColumn wf found h drafts name m

omit wf found in
/-- What leaves the columns of the table and the new sequences alone keeps them as they were
sketched. -/
theorem carried {c' : Catalog} {t' : Table} (there : c'.tables.get? current.id = some t')
    (columns : t'.columns = t.columns)
    (same : ∀ ⦃s⦄, live.nextId < s → c'.sequences.get? s = c.sequences.get? s)
    (spared : ∀ s, c.SparesFor current.id s → c'.SparesFor current.id s) :
    Sketched live current sketches t' c' := by
  have drawn : t'.sequenceIds = t.sequenceIds := by rw [Table.sequenceIds, columns]; rfl
  refine ⟨there, ?_, fun s q found above => ?_, drawn ▸ h.once, h.origin,
    fun s listed a origin id generated => (h.retired s listed a origin id generated).imp_right
      (spared id)⟩
  · rw [columns]
    exact h.fits.imp fun _ _ fits => fits.congr fun s _ above q there => (same above).trans there
  · rw [drawn]
    exact h.drawn ((same above).symm.trans found) above

omit h wf found in
theorem ignoresIndexes :
    IgnoresIndexes current.id fun c => ∃ t, Sketched live current sketches t c := by
  rintro c f indexes ⟨t, h⟩
  obtain ⟨indexes, same⟩ := indexes t
  exact ⟨f t, h.carried (get?_editing_self h.there) (by rw [same]) (fun _ _ => rfl)
    fun s spared => spared.revised fun _ => id⟩

omit h found in
include wf in
theorem ignoresPlaces :
    IgnoresPlaces live fun c => ∃ t, Sketched live current sketches t c where
  moved := by
    rintro c c' moved ⟨t, h⟩
    obtain ⟨u, there, body⟩ := exists_of_bodies moved.bodies h.there
    have columns : u.body.columns = t.body.columns := congrArg Table.columns body
    refine ⟨u, h.carried there columns (fun s _ => by rw [moved.sequences])
      fun s spared q found => ?_⟩
    obtain ⟨k, v, other, there, drawn⟩ := spared q (moved.sequences ▸ found)
    obtain ⟨v', there', body⟩ := exists_of_bodies moved.bodies there
    refine ⟨k, v', other, there', ?_⟩
    rw [← Table.body_sequenceIds, body]
    exact drawn
  copied := by
    rintro c k u there free ⟨t, h⟩
    have apart : current.id ≠ u.id := by
      intro same
      rw [← same, h.there] at free
      cases free
    refine ⟨t, h.carried (get?_copied_of_get? free h.there) rfl (fun s above => ?_)
      fun s spared q found => ?_⟩
    · refine Option.ext fun q => ⟨fun found => ?_, get?_sequences_copied⟩
      refine (mem_of_get?_sequences_copied wf.numbered found).resolve_right ?_
      exact fun ⟨_, old⟩ => Nat.not_le.2 above old
    · obtain found | ⟨drawn, _⟩ := mem_of_get?_sequences_copied wf.numbered found
      · obtain ⟨k, v, other, there, drawn⟩ := spared q found
        exact ⟨k, v, other, get?_copied_of_get? free there, drawn⟩
      · exact ⟨u.id, _, apart.symm, get?_copied.trans (if_pos rfl), drawn⟩

end Sketched

end GroupedTables
