import GroupedTables.Proofs.Record.Settings

/-!
# Records built again from their fields

A record is nothing but its fields when the last of them ends where the footer begins. Then a
record built from what its fields are read as, nulls as null and payloads as bytes, is the same
byte for byte: a length is written in front of a payload in the only way it can be read there,
and the end offsets are those that the footer had.
-/

namespace GroupedTables.Record

variable {l : Layout} {bytes : List UInt8} {i n : Nat} {f : Field} {b : Builder}

/-- Sets a field as it is in a record: to null, or to the bytes of its payload. -/
def Builder.setFrom (bytes : List UInt8) (b : Builder) (i : Nat) : Except Fault Builder := do
  let f ← b.layout.read bytes i
  if f.isNull then b.setNull i
  else b.setBytes i (← f.payload)

/-- Sets fields as they are in a record, one after the other. -/
def Layout.rebuild (l : Layout) (bytes : List UInt8) (order : List Nat) : Except Fault Builder :=
  order.foldlM (Builder.setFrom bytes) (.ofLayout l)

namespace Layout

/-- Every field has a location in the record, and its bytes are those of its fields. -/
structure Fills (l : Layout) (bytes : List UInt8) : Prop where
  located : ∀ i < l.size, ∃ location, l.location bytes i = .ok location
  ended : startOffset bytes (l.dataSize bytes) l.size = l.dataSize bytes

/-- The bytes between the start offset and the end offset of a field, if there are any. -/
def slot (l : Layout) (bytes : List UInt8) (i : Nat) : Option (List UInt8) :=
  let start := startOffset bytes (l.dataSize bytes) i
  let stop := endOffset bytes (l.dataSize bytes) i
  if stop = start then none else some (span bytes start (stop - start))

theorem getD_slot : (l.slot bytes i).getD [] =
    span bytes (startOffset bytes (l.dataSize bytes) i)
      (endOffset bytes (l.dataSize bytes) i - startOffset bytes (l.dataSize bytes) i) := by
  simp only [slot]
  split
  case isTrue empty => rw [empty, Nat.sub_self]; rfl
  case isFalse => rfl

/-- The footer holds offsets of four bytes. -/
theorem endOffset_lt (bytes : List UInt8) (size i : Nat) :
    endOffset bytes size i < UInt32.size := by
  have least := ofLittleEndian_lt (span bytes (size + i * footerEntrySize) footerEntrySize)
  have short : (span bytes (size + i * footerEntrySize) footerEntrySize).length ≤ 4 :=
    List.length_take_le ..
  exact Nat.lt_of_lt_of_le least (Nat.pow_le_pow_right (by decide) short)

theorem startOffset_lt (bytes : List UInt8) (size i : Nat) :
    startOffset bytes size i < UInt32.size := by
  cases i with
  | zero => exact Nat.zero_lt_of_lt (endOffset_lt bytes size 0)
  | succ i => exact endOffset_lt bytes size i

/-- A location that is found is that of null if nothing lies between the offsets of the field, and
starts at the one and ends at the other if something does. -/
theorem location_cases {location : Nat} (ok : l.location bytes i = .ok location) :
    location = 0 ∧ endOffset bytes (l.dataSize bytes) i = startOffset bytes (l.dataSize bytes) i ∨
      location ≠ 0 ∧
        startOffset bytes (l.dataSize bytes) i < endOffset bytes (l.dataSize bytes) i ∧
        locationOffset location = startOffset bytes (l.dataSize bytes) i ∧
        locationWidth location =
          endOffset bytes (l.dataSize bytes) i - startOffset bytes (l.dataSize bytes) i := by
  obtain ⟨-, -, ordered, -, rfl⟩ := location_eq_ok.1 ok
  have start_lt := startOffset_lt bytes (l.dataSize bytes) i
  have stop_lt := endOffset_lt bytes (l.dataSize bytes) i
  generalize startOffset bytes (l.dataSize bytes) i = start at *
  generalize endOffset bytes (l.dataSize bytes) i = stop at *
  have width_lt : stop - start < UInt32.size := by omega
  have null := packLocation_eq_zero_iff start_lt width_lt
  by_cases empty : stop = start
  · exact .inl ⟨null.2 (by omega), empty⟩
  · have filled : stop - start ≠ 0 := by omega
    exact .inr ⟨fun zero => filled (null.1 zero), by omega,
      locationOffset_packLocation start_lt width_lt filled,
      locationWidth_packLocation start_lt width_lt⟩

end Layout

/-- A field that is read spans its slot, or is null because there is nothing in it. -/
theorem Layout.Fills.read (fills : l.Fills bytes) {type : FieldType}
    (found : l.fields[i]? = some type) : ∃ f, l.read bytes i = .ok f ∧ f.type = type ∧
      (f.isNull = true ∧ l.slot bytes i = none ∨
        f.isNull = false ∧ ∃ value, l.slot bytes i = some value ∧ value ≠ [] ∧ f.Spans value) := by
  have inside := (List.getElem?_eq_some_iff.1 found).1
  obtain ⟨location, ok⟩ := fills.located i inside
  obtain ⟨-, long, -, within, -⟩ := Layout.location_eq_ok.1 ok
  refine ⟨_, Layout.read_eq_ok.2 ⟨type, location, found, ok, rfl⟩, rfl, ?_⟩
  obtain ⟨rfl, empty⟩ | ⟨filled, less, offset, width⟩ := Layout.location_cases ok
  · exact .inl ⟨rfl, if_pos empty⟩
  · have size : l.dataSize bytes ≤ bytes.length := Nat.sub_le ..
    have inside : startOffset bytes (l.dataSize bytes) i +
        (endOffset bytes (l.dataSize bytes) i - startOffset bytes (l.dataSize bytes) i) ≤
          bytes.length := by
      rw [Nat.add_sub_cancel' (Nat.le_of_lt less)]
      exact Nat.le_trans within size
    have length := length_span inside
    refine .inr ⟨beq_false_of_ne filled, _, if_neg (Nat.ne_of_gt less), ?_, ?_⟩
    · rw [← List.length_pos_iff, length]
      exact Nat.sub_pos_of_lt less
    · refine ⟨by rw [length, width], ?_, by rw [length, offset]⟩
      rw [length, offset]
      exact inside

/-- Setting a field as it is in a record puts its slot in its place. -/
theorem Builder.setFrom_eq (fills : b.layout.Fills bytes) (inside : i < b.layout.size)
    (whole : ∀ f, b.layout.read bytes i = .ok f → f.isNull = false →
      ∃ value, f.payload = .ok value ∧
        (f.type.lengthWidth ≠ 0 → value.length ≤ f.type.descriptor.maxPayload)) :
    b.setFrom bytes i = .ok (b.put i (b.layout.slot bytes i)) := by
  have found : b.layout.fields[i]? = some b.layout.fields[i] := List.getElem?_eq_getElem inside
  obtain ⟨f, read, type, ⟨null, slot⟩ | ⟨filled, taken, slot, some, spans⟩⟩ := fills.read found
  · have set := setNull_eq_ok.2 ⟨_, found, rfl⟩
    simp only [setFrom, read, bind, Except.bind, null, if_true, set, slot]
  · obtain ⟨value, payload, fits⟩ := whole f read filled
    have most : f.type.lengthWidth ≤ 8 := Nat.le_trans (lengthWidth_le _) (by decide)
    obtain ⟨rfl, -⟩ := (spans.payload_eq_ok_iff some most).1 payload
    simp only [setFrom, read, bind, Except.bind, filled, payload, slot]
    rw [type] at fits
    rw [type]
    exact setBytes_eq_ok.2 ⟨_, found, fits, rfl⟩

/-- Setting fields as they are in a record puts their slots in their places, and leaves the
other fields as they are. -/
theorem Builder.foldlM_setFrom (fills : b.layout.Fills bytes) (complete : b.Complete)
    (whole : ∀ i f, b.layout.read bytes i = .ok f → f.isNull = false →
      ∃ value, f.payload = .ok value ∧
        (f.type.lengthWidth ≠ 0 → value.length ≤ f.type.descriptor.maxPayload))
    (order : List Nat) (inside : ∀ i ∈ order, i < b.layout.size) :
    ∃ b', order.foldlM (setFrom bytes) b = .ok b' ∧ b'.payloads.length = b.layout.size ∧
      ∀ i, b'.payloads[i]? =
        if i ∈ order then some (b.layout.slot bytes i) else b.payloads[i]? := by
  induction order generalizing b with
  | nil => exact ⟨b, rfl, complete, fun i => by rw [if_neg List.not_mem_nil]⟩
  | cons k rest ih =>
    have first := inside k List.mem_cons_self
    have set := setFrom_eq fills first (whole k)
    have complete' : (b.put k (b.layout.slot bytes k)).Complete := by
      rw [Complete, put, List.length_set]
      exact complete
    obtain ⟨b', run, length, slots⟩ := ih (b := b.put k (b.layout.slot bytes k)) fills complete'
      whole fun i later => inside i (List.mem_cons_of_mem _ later)
    refine ⟨b', by rw [List.foldlM_cons, set]; exact run, length, fun i => ?_⟩
    rw [slots i]
    by_cases later : i ∈ rest
    case pos => rw [if_pos later, if_pos (List.mem_cons_of_mem _ later)]; rfl
    case neg =>
      rw [if_neg later]
      by_cases here : i = k
      case pos =>
        subst here
        rw [if_pos List.mem_cons_self, put, List.getElem?_set_self (by rwa [complete])]
      case neg =>
        rw [if_neg (by simp [here, later]), put, List.getElem?_set_ne (Ne.symm here)]

namespace Layout.Fills

variable (fills : l.Fills bytes)

include fills

/-- The slots in front of a field take up the data in front of it. -/
theorem dataOf_slots (most : n ≤ l.size) : dataOf ((List.range n).map (l.slot bytes)) =
    bytes.take (startOffset bytes (l.dataSize bytes) n) := by
  induction n with
  | zero => rfl
  | succ n ih =>
    obtain ⟨_, ok⟩ := fills.located n most
    obtain ⟨-, -, ordered, -, -⟩ := location_eq_ok.1 ok
    rw [List.range_succ, List.map_append, dataOf_append, ih (Nat.le_of_lt most), List.map_singleton,
      dataOf_cons, dataOf_nil, List.append_nil, getD_slot, span, ← List.take_add,
      Nat.add_sub_cancel' ordered]
    rfl

/-- The end offsets of the slots are those in the footer. -/
theorem footerOf_slots (most : n ≤ l.size) : footerOf 0 ((List.range n).map (l.slot bytes)) =
    span bytes (l.dataSize bytes) (n * footerEntrySize) := by
  induction n with
  | zero => simp [span]
  | succ n ih =>
    obtain ⟨_, ok⟩ := fills.located n most
    obtain ⟨-, long, ordered, within, -⟩ := location_eq_ok.1 ok
    have size : l.dataSize bytes + l.size * footerEntrySize = bytes.length :=
      Nat.sub_add_cancel long
    have before : (dataOf ((List.range n).map (l.slot bytes))).length =
        startOffset bytes (l.dataSize bytes) n := by
      rw [fills.dataOf_slots (Nat.le_of_lt most), List.length_take_of_le]
      omega
    have taken : ((l.slot bytes n).getD []).length =
        endOffset bytes (l.dataSize bytes) n - startOffset bytes (l.dataSize bytes) n := by
      rw [getD_slot, length_span]
      omega
    have entry : (span bytes (l.dataSize bytes + n * footerEntrySize) footerEntrySize).length =
        footerEntrySize := by
      rw [length_span]
      have := Nat.mul_le_mul_right footerEntrySize most
      rw [Nat.succ_mul] at this
      omega
    have written := littleEndian_ofLittleEndian
      (span bytes (l.dataSize bytes + n * footerEntrySize) footerEntrySize)
    rw [entry] at written
    rw [List.range_succ, List.map_append, footerOf_append, ih (Nat.le_of_lt most), before,
      List.map_singleton, footerOf_cons, taken, Nat.zero_add, Nat.add_sub_cancel' ordered,
      footerOf_nil, List.append_nil, endOffset, written, Nat.succ_mul, span_add]

/-- The slots and their end offsets are the whole record. -/
theorem record_slots : dataOf ((List.range l.size).map (l.slot bytes)) ++
    footerOf 0 ((List.range l.size).map (l.slot bytes)) = bytes := by
  have rest : span bytes (l.dataSize bytes) (l.size * footerEntrySize) =
      bytes.drop (l.dataSize bytes) := by
    refine List.take_of_length_le ?_
    rw [List.length_drop, dataSize, footerSize]
    omega
  rw [fills.dataOf_slots (Nat.le_refl _), fills.footerOf_slots (Nat.le_refl _), fills.ended, rest]
  exact List.take_append_drop _ _

end Layout.Fills

/-- Only values of variable width have their length in front of them. -/
theorem FieldType.isVariableWidth_of_counted {type : FieldType} (counted : type.lengthWidth ≠ 0) :
    type.type.isVariableWidth = true := by
  by_contra fixed
  refine counted ?_
  rw [lengthWidth, TypeDescriptor.lengthWidth, if_pos]
  simpa [FieldType.type] using fixed

/-- If every field of a record has a location, the last of them ends where the footer begins,
and the payload of each that is not null can be read and is no longer than its type allows,
then setting the fields to what is read, in any order, builds the same record. -/
theorem build_rebuild (l : Layout) (bytes : List UInt8) (order : List Nat)
    (all : ∀ i, i ∈ order ↔ i < l.size) (fills : l.Fills bytes)
    (whole : ∀ i f, l.read bytes i = .ok f → f.isNull = false →
      ∃ value, f.payload = .ok value ∧
        (f.type.type.isVariableWidth = true → value.length ≤ f.type.descriptor.maxPayload)) :
    ∃ b, l.rebuild bytes order = .ok b ∧ b.build = bytes := by
  obtain ⟨b, run, length, slots⟩ := Builder.foldlM_setFrom (b := .ofLayout l) fills
    (Builder.complete_ofLayout l)
    (fun i f read filled => by
      obtain ⟨value, payload, fits⟩ := whole i f read filled
      exact ⟨value, payload, fun counted => fits (FieldType.isVariableWidth_of_counted counted)⟩)
    order fun i named => (all i).1 named
  have payloads : b.payloads = (List.range l.size).map (l.slot bytes) := by
    refine List.ext_getElem? fun i => ?_
    rw [slots i, List.getElem?_map]
    by_cases inside : i < l.size
    case pos => rw [if_pos ((all i).2 inside), List.getElem?_range inside]; rfl
    case neg =>
      have beyond : b.payloads[i]? = none := by
        rw [List.getElem?_eq_none_iff, length]
        exact Nat.not_lt.1 inside
      rw [← slots i, beyond, List.getElem?_eq_none (by rw [List.length_range]; omega)]
      rfl
  refine ⟨b, run, ?_⟩
  rw [Builder.build_eq, payloads]
  exact fills.record_slots

/-- A number, no text and a text, the payload of which is a single byte behind its length. -/
def noted : Layout :=
  ⟨[⟨.ofType .int, none⟩, ⟨.ofType .text, none⟩, ⟨{ type := .varchar, length := some 4 }, none⟩]⟩

def note : List UInt8 := [44, 1, 0, 0, 1, 33, 4, 0, 0, 0, 4, 0, 0, 0, 6, 0, 0, 0]

theorem build_rebuild_note : noted.Fills note ∧
    ∃ b, noted.rebuild note [2, 0, 1] = .ok b ∧ b.build = note := by
  have fills : noted.Fills note := by
    refine ⟨fun i inside => ?_, by decide +kernel⟩
    obtain rfl | rfl | rfl : i = 0 ∨ i = 1 ∨ i = 2 := by
      have : i < 3 := inside
      omega
    all_goals exact ⟨_, rfl⟩
  refine ⟨fills, build_rebuild noted note [2, 0, 1] (fun i => ?_) fills fun i f read filled => ?_⟩
  · show i ∈ [2, 0, 1] ↔ i < 3
    simp only [List.mem_cons, List.not_mem_nil, or_false]
    omega
  · match i with
    | 0 =>
      cases read
      exact ⟨[44, 1, 0, 0], by decide +kernel, by decide +kernel⟩
    | 1 =>
      cases read
      exact absurd filled (by decide +kernel)
    | 2 =>
      cases read
      exact ⟨[33], by decide +kernel, by decide +kernel⟩
    | i + 3 => cases read

end GroupedTables.Record
