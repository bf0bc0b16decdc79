import GroupedTables.Proofs.Record.Getters

/-!
# Reading stays within the record

What the footer says is checked before it is believed: a location that is found lies within the
data, and if all are found, the fields that are not null lie there one after the other. What is
read at any location lies within the record too.
-/

namespace GroupedTables.Record

open Machine

/-- Locations that lie one after the other from an offset on, without gaps. -/
def Adjacent (start : Nat) : List Nat → Prop
  | [] => True
  | location :: rest =>
    locationOffset location = start ∧ Adjacent (start + locationWidth location) rest

namespace Layout

variable {l : Layout} {bytes : List UInt8} {location : Nat}

theorem location_within {i : Nat} (ok : l.location bytes i = .ok location) :
    locationOffset location + locationWidth location ≤ l.dataSize bytes := by
  obtain ⟨-, -, -, within, -⟩ := location_eq_ok.1 ok
  obtain ⟨rfl, -⟩ | ⟨-, less, offset, width⟩ := location_cases ok
  · exact Nat.zero_le _
  · rw [offset, width]
    omega

/-- Each field starts where the one before it ends, so those that are not null do. -/
theorem adjacent_locations (first count : Nat) {locations : List Nat}
    (found : (List.range' first count).mapM (l.location bytes) = .ok locations) :
    Adjacent (startOffset bytes (l.dataSize bytes) first) (locations.filter (· ≠ 0)) := by
  induction count generalizing first locations with
  | zero =>
    cases found
    exact trivial
  | succ count ih =>
    rw [List.range'_succ, List.mapM_cons] at found
    simp only [Check.bind_eq_ok, pure, Except.pure, Except.ok.injEq] at found
    obtain ⟨location, ok, rest, later, rfl⟩ := found
    -- the fields behind this one start at its end offset
    have others := ih (first + 1) later
    rw [startOffset] at others
    obtain ⟨rfl, empty⟩ | ⟨filled, less, offset, width⟩ := location_cases ok
    · rw [List.filter_cons_of_neg (by simp), ← empty]
      exact others
    · rw [List.filter_cons_of_pos (by simpa using filled)]
      refine ⟨offset, ?_⟩
      rw [width, Nat.add_sub_cancel' (Nat.le_of_lt less)]
      exact others

/-- Reading a record with a layout stays within the record. -/
structure ReadsWithin (l : Layout) (bytes : List UInt8) : Prop where
  /-- No step of looking up a location traps. -/
  gives : ∀ i, (Guarded.location l bytes i).Gives (l.location bytes i)
  /-- What is found lies within the data. -/
  within : ∀ i location, l.location bytes i = .ok location →
    locationOffset location + locationWidth location ≤ bytes.length - l.footerSize
  /-- If nothing is found, the record does not match the layout. -/
  refused : ∀ i f, (liftM (l.location bytes i) : Except Fault Nat) = .error f → f.code = "ROW_003"
  /-- If all are found, those that are not null lie one after the other from the start. -/
  adjacent : ∀ locations, (List.range l.size).mapM (l.location bytes) = .ok locations →
    Adjacent 0 (locations.filter (· ≠ 0))
  /-- Whatever location a field is given, it is read safely. -/
  safe : ∀ i type location, l.fields[i]? = some type → location < Word.bound →
    Field.ReadsSafely { bytes, index := i, type, location }

/-- Whatever the bytes are, reading them stays within them. All that is asked for is that a machine
can hold the record, the footer and the number of digits of a decimal. -/
theorem readsWithin (l : Layout) (bytes : List UInt8) (small : bytes.length < Word.bound)
    (footer : l.footerSize < Word.bound)
    (digits : ∀ type ∈ l.fields, type.descriptor.precision < 256 ∧ type.descriptor.scale < 256) :
    l.ReadsWithin bytes where
  gives i := Guarded.gives_location small footer
  within i location ok := location_within ok
  refused i f failed := by
    cases found : l.location bytes i with
    | ok location => rw [found] at failed; cases failed
    | error defect =>
      rw [found] at failed
      cases failed
      rfl
  adjacent locations found := adjacent_locations 0 l.size (List.range_eq_range' ▸ found)
  safe i type location found fits := by
    obtain ⟨precision, scale⟩ := digits type (List.mem_of_getElem? found)
    exact Field.Held.readsSafely ⟨small, fits, precision, scale⟩

theorem readsWithin_note : note.length < Word.bound ∧ noted.footerSize < Word.bound ∧
    (∀ type ∈ noted.fields, type.descriptor.precision < 256 ∧ type.descriptor.scale < 256) ∧
    noted.ReadsWithin note := by
  refine ⟨by decide, by decide, by decide +kernel, ?_⟩
  exact readsWithin noted note (by decide) (by decide) (by decide +kernel)

end Layout

end GroupedTables.Record
