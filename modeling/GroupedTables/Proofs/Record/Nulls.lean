import GroupedTables.Proofs.Record.RoundTrip

/-!
# Null and values of no bytes

In the footer of a record null is a field that takes no bytes. A setter puts a payload in the
place of its field, and most payloads take a byte at least: an integer has the width of its
type, a text or bytes of variable width have their length in front, and a decimal has its
digits. What is left are decimals without any digits, and empty texts and bytes in fields that
put no length in front. Such a value is stored like any other and is null when the record is
read.
-/

namespace GroupedTables.Record

variable {i : Nat} {type : FieldType} {f : Field} {bytes : List UInt8} {s : Setting}

/-- The setter stores a value in a field of this type, but no bytes. -/
def Setting.Vanishes (type : FieldType) : Setting → Prop
  | .decimal _ => type.descriptor.precision = 0 ∧ type.descriptor.scale = 0
  | .string text => text = "" ∧ type.lengthWidth = 0
  | .bytes value => value = [] ∧ type.lengthWidth = 0
  | .null | .int _ | .uint _ | .float _ | .double _ | .date .. | .dateTime .. | .time ..
  | .timestamp _ | .year _ => False

theorem counted_eq_nil_iff {width : Nat} {value : List UInt8} :
    littleEndian value.length width ++ value = [] ↔ value = [] ∧ width = 0 := by
  rw [List.append_eq_nil_iff, ← List.length_eq_zero_iff, length_littleEndian, and_comm]

/-- A charset has no bytes for the empty text only. -/
theorem encode_eq_nil_iff {charset : Charset} {text : String} {value : List UInt8}
    (encoded : charset.encode text = .ok value) : value = [] ↔ text = "" := by
  constructor
  · rintro rfl
    have read := Charset.decode_of_encode encoded
    have empty : charset.decode [] = .ok "" := by cases charset <;> rfl
    exact (Except.ok.inj (empty.symm.trans read)).symm
  · rintro rfl
    have empty : charset.encode "" = .ok [] := by cases charset <;> rfl
    exact Except.ok.inj (encoded.symm.trans empty)

/-- A payload takes no bytes just if the value vanishes in its type. -/
theorem Setting.Stores.eq_nil_iff (stores : s.Stores type (some bytes)) :
    bytes = [] ↔ s.Vanishes type := by
  cases stores with
  | decimal encoded =>
    rw [← List.length_eq_zero_iff, Decimal.length_of_encode encoded,
      Decimal.packedSize_eq_zero_iff]
    rfl
  | bytes => exact counted_eq_nil_iff
  | string encoded =>
    rw [counted_eq_nil_iff, encode_eq_nil_iff encoded]
    rfl
  | @integer _ n width value fixed =>
    have some := (DataType.fixedWidth?_bounds fixed).1
    rw [← List.length_eq_zero_iff, length_littleEndian]
    cases s with
    | null | decimal | string | bytes => cases value
    | int | uint | float | double | date | dateTime | time | timestamp | year =>
      exact iff_of_false (Nat.ne_of_gt some) not_false

theorem Field.Null.isNull (h : f.Null) : f.isNull = true := by
  rw [Field.isNull, h.location]
  rfl

theorem Field.Spans.isNull (h : f.Spans bytes) (filled : bytes ≠ []) : f.isNull = false := by
  by_contra null
  have extent := h.extent filled
  rw [Field.extent, if_pos (by simpa using null)] at extent
  cases extent

/-- A field of a built record is null just if its payload takes no bytes. -/
theorem Builder.exists_isNull_build {b : Builder} {p : Option (List UInt8)} (complete : b.Complete)
    (small : b.data.length < UInt32.size) (found : b.layout.fields[i]? = some type)
    (there : b.payloads[i]? = some p) : ∃ f, b.layout.read b.build i = .ok f ∧ f.type = type ∧
      (f.isNull = true ↔ p.getD [] = []) := by
  obtain ⟨f, read, typed, -, null, spans⟩ := exists_read_build complete small found there
  refine ⟨f, read, typed, fun absent => ?_, fun none => (null none).isNull⟩
  by_contra filled
  rw [(spans filled).1.isNull filled] at absent
  cases absent

/-- After calls of setters, the payload of a field takes no bytes just if the last of them that
succeeded on the field stored none. -/
theorem Builder.exists_payload_ofCalls {l : Layout} (calls : List (Nat × Setting))
    (found : l.fields[i]? = some type) : ∃ p, (ofCalls l calls).payloads[i]? = some p ∧
      (p.getD [] = [] ↔ ∀ s, lastSetting i (.ofLayout l) calls = some s →
        s = .null ∨ s.Vanishes type) := by
  obtain ⟨p, there, stored⟩ := payload_foldl_after (complete_ofLayout l) found calls
  refine ⟨p, there, ?_⟩
  cases last : lastSetting i (.ofLayout l) calls with
  | none =>
    rw [last] at stored
    have start : (ofLayout l).payloads[i]? = some none :=
      List.getElem?_replicate_of_lt (List.getElem?_eq_some_iff.1 found).1
    obtain rfl : p = none := Option.some.inj (stored.symm.trans start)
    exact iff_of_true rfl fun s set => by cases set
  | some s =>
    rw [last] at stored
    simp only [Option.some.injEq, forall_eq']
    cases p with
    | none =>
      cases stored
      exact iff_of_true rfl (.inl rfl)
    | some bytes =>
      have valued : s ≠ .null := by
        rintro rfl
        cases stored with
        | integer value => cases value
      rw [Option.getD_some, stored.eq_nil_iff, or_iff_right valued]

/-- Whatever setters are called on a record, a field of the built record is null just if the
last of them that succeeded on it was that of null, or there was none, or the value it stored
takes no bytes in the type of the field. -/
theorem isNull_iff_of_build (l : Layout) (calls : List (Nat × Setting))
    (small : (Builder.ofCalls l calls).data.length < UInt32.size) :
    ∀ i type, l.fields[i]? = some type →
      ∃ f, l.read (Builder.ofCalls l calls).build i = .ok f ∧ f.type = type ∧
        (f.isNull = true ↔ ∀ s, Builder.lastSetting i (.ofLayout l) calls = some s →
          s = .null ∨ s.Vanishes type) := by
  intro i type found
  have layout : (Builder.ofCalls l calls).layout = l := Builder.layout_foldl_after ..
  have complete : (Builder.ofCalls l calls).Complete :=
    (Builder.complete_ofLayout l).foldl_after calls
  obtain ⟨p, there, stored⟩ := Builder.exists_payload_ofCalls calls found
  obtain ⟨f, read, typed, null⟩ :=
    Builder.exists_isNull_build complete small (by rwa [layout]) there
  rw [layout] at read
  exact ⟨f, read, typed, null.trans stored⟩

/-- A decimal without digits and a short text. -/
def bare : Layout := ⟨[⟨.ofType .decimal, none⟩, ⟨{ type := .varchar, length := some 4 }, none⟩]⟩

/-- Zero is stored in the decimal, and the empty text in the other field. -/
def emptied : List (Nat × Setting) := [(0, .decimal ⟨0, 0⟩), (1, .string "")]

theorem isNull_iff_of_build_bare : (Builder.ofCalls bare emptied).data.length < UInt32.size ∧
    (∃ f, bare.read (Builder.ofCalls bare emptied).build 0 = .ok f ∧ f.isNull = true) ∧
    ∃ f, bare.read (Builder.ofCalls bare emptied).build 1 = .ok f ∧ f.isNull = false := by
  have small : (Builder.ofCalls bare emptied).data.length < UInt32.size := by decide +kernel
  have nulls := isNull_iff_of_build bare emptied small
  refine ⟨small, ?_, ?_⟩
  · have last : Builder.lastSetting 0 (.ofLayout bare) emptied = some (.decimal ⟨0, 0⟩) := by
      decide +kernel
    obtain ⟨f, read, -, null⟩ := nulls 0 _ rfl
    refine ⟨f, read, null.2 fun s set => .inr ?_⟩
    obtain rfl : .decimal ⟨0, 0⟩ = s := Option.some.inj (last.symm.trans set)
    exact ⟨rfl, rfl⟩
  · have last : Builder.lastSetting 1 (.ofLayout bare) emptied = some (.string "") := by
      decide +kernel
    obtain ⟨f, read, -, null⟩ := nulls 1 _ rfl
    refine ⟨f, read, Bool.eq_false_iff.2 fun absent => ?_⟩
    obtain none | ⟨-, counted⟩ := null.1 absent _ last
    · cases none
    · revert counted
      decide

/-- Only a decimal without digits. -/
def digitless : Layout := ⟨[⟨.ofType .decimal, none⟩]⟩

/-- The decimal is null after zero was stored in it. -/
theorem not_isNull_iff_of_digitless : ¬ ∃ f,
    digitless.read (Builder.ofCalls digitless [(0, .decimal ⟨0, 0⟩)]).build 0 = .ok f ∧
      (f.isNull = true ↔ ∀ s,
        Builder.lastSetting 0 (.ofLayout digitless) [(0, .decimal ⟨0, 0⟩)] = some s →
          s = .null) := by
  rintro ⟨f, read, null⟩
  have zero : digitless.read (Builder.ofCalls digitless [(0, .decimal ⟨0, 0⟩)]).build 0 =
      .ok ⟨[0, 0, 0, 0], 0, ⟨.ofType .decimal, none⟩, 0⟩ := by decide +kernel
  have last : Builder.lastSetting 0 (.ofLayout digitless) [(0, .decimal ⟨0, 0⟩)] =
      some (.decimal ⟨0, 0⟩) := by decide +kernel
  rw [zero] at read
  cases read
  cases null.1 rfl _ last

end GroupedTables.Record
