import GroupedTables.Proofs.Decimal.Canonical
import GroupedTables.Record.Field

/-!
# Values that need no quotes

Numbers, dates, times and bytes in digits are written without any quote character and without
a comma. So nothing has to be doubled in them, and numbers can stand between commas as they
are.
-/

namespace GroupedTables.Record

open Text

variable {cs ds : List Char} {c : Char} {n width : ℕ}

/-- There is neither a quote character nor a comma in the text. -/
def Plain (cs : List Char) : Prop := ∀ c ∈ cs, c ≠ '\'' ∧ c ≠ '"' ∧ c ≠ ','

instance : Decidable (Plain cs) :=
  List.decidableBAll (fun c => c ≠ '\'' ∧ c ≠ '"' ∧ c ≠ ',') cs

@[simp] theorem plain_nil : Plain [] := List.forall_mem_nil _

@[simp] theorem plain_cons : Plain (c :: cs) ↔ (c ≠ '\'' ∧ c ≠ '"' ∧ c ≠ ',') ∧ Plain cs :=
  List.forall_mem_cons

@[simp] theorem plain_append : Plain (cs ++ ds) ↔ Plain cs ∧ Plain ds := List.forall_mem_append

theorem plain_of_digits (digits : ∀ c ∈ cs, c.isDigit = true) : Plain cs := fun c inside =>
  ⟨Floating.ne_of_isDigit (digits c inside) rfl, Floating.ne_of_isDigit (digits c inside) rfl,
    Floating.ne_of_isDigit (digits c inside) rfl⟩

@[simp] theorem plain_digits (n : ℕ) : Plain (digits n) :=
  plain_of_digits fun _ inside => isDigit_digits inside

@[simp] theorem plain_zeroFilled (width n : ℕ) : Plain (zeroFilled width n) :=
  plain_of_digits fun _ inside => isDigit_zeroFilled inside

@[simp] theorem plain_zeros (count : ℕ) : Plain (List.replicate count '0') := by
  intro c inside
  rw [(List.mem_replicate.1 inside).2]
  decide

@[simp] theorem plain_signedZeroFilled (width : ℕ) (v : ℤ) : Plain (signedZeroFilled width v) := by
  cases v with
  | ofNat n => exact plain_zeroFilled width n
  | negSucc n => simp [signedZeroFilled]

/-- An integer is written in some digits, with a minus sign or without. -/
theorem plain_toString (v : ℤ) : (toString v).toList ≠ [] ∧ Plain (toString v).toList := by
  obtain ⟨ds, some, digits, ⟨chars, -⟩ | ⟨chars, -⟩⟩ := (Floating.denotes_toString v).cases
  · rw [chars]
    exact ⟨some, plain_of_digits digits⟩
  · rw [chars]
    exact ⟨List.cons_ne_nil _ _, plain_cons.2 ⟨by decide, plain_of_digits digits⟩⟩

theorem plain_of_spelled {places : ℕ} (spelled : Decimal.Spelled places cs) :
    cs ≠ [] ∧ Plain cs := by
  obtain ⟨sign, whole, point, rfl, signed, ⟨some, digits⟩, fraction⟩ := spelled
  have before : Plain sign := by
    obtain rfl | rfl := signed <;> decide
  have behind : Plain point := by
    split at fraction
    · rw [fraction]
      exact plain_nil
    · obtain ⟨ds, rfl, -, digits⟩ := fraction
      exact plain_cons.2 ⟨by decide, plain_of_digits digits⟩
  refine ⟨?_, plain_append.2 ⟨plain_append.2 ⟨before, plain_of_digits digits⟩, behind⟩⟩
  exact List.append_ne_nil_of_left_ne_nil (List.append_ne_nil_of_right_ne_nil _ some) _

/-- A decimal that is read is spelled in digits. -/
theorem spelled_of_decodeText {bytes : List UInt8} {precision scale : ℕ} {text : String}
    (read : Decimal.decodeText bytes precision scale = .ok text) :
    Decimal.Spelled scale text.toList := by
  by_cases width : bytes.length = Decimal.packedSize precision scale
  · obtain ⟨ds, digits, found⟩ := Decimal.exists_readDigits width
    rw [Decimal.decodeText, digits] at read
    cases read
    rw [String.toList_ofList]
    exact found.spelled
  · unfold Decimal.decodeText Decimal.readDigits at read
    dsimp only at read
    rw [if_pos width] at read
    cases read

/-- Digits with the point put in place are at least one digit. -/
theorem plain_positional (plain : Plain ds) (whole : ℤ) :
    Floating.positional ds whole ≠ [] ∧ Plain (Floating.positional ds whole) := by
  unfold Floating.positional
  split
  · simpa using plain
  case isFalse above =>
    split
    case isTrue short =>
      refine ⟨fun none => ?_, by simpa using plain⟩
      have length := congrArg List.length none
      rw [List.length_append, List.length_replicate, List.length_nil] at length
      omega
    case isFalse =>
      rw [← List.take_append_drop whole.toNat ds, plain_append] at plain
      exact ⟨by simp, plain_append.2 ⟨plain.1, plain_cons.2 ⟨by decide, plain.2⟩⟩⟩

theorem plain_floatText (f : Floating.Format) (x : Floating.Number) :
    (f.text x).toList ≠ [] ∧ Plain (f.text x).toList := by
  have sign (negative : Bool) : Plain (if negative then ['-'] else []) := by
    cases negative <;> decide
  cases x with
  | nan =>
    have text : f.text .nan = "NaN" := rfl
    rw [text]
    decide
  | infinite negative =>
    have text : f.text (.infinite negative) = if negative then "-inf" else "inf" := rfl
    rw [text]
    cases negative <;> decide
  | finite negative m q =>
    unfold Floating.Format.text
    dsimp only
    split
    · rw [String.toList_ofList]
      exact ⟨by simp, plain_append.2 ⟨sign negative, by decide⟩⟩
    · have digits : Plain (f.shortest m q).trimmed.1 := fun c inside =>
        plain_digits _ c (List.mem_of_mem_take inside)
      obtain ⟨some, plain⟩ := plain_positional digits
        ((f.shortest m q).trimmed.2 + (f.shortest m q).trimmed.1.length)
      rw [String.toList_ofList]
      exact ⟨List.append_ne_nil_of_right_ne_nil _ some, plain_append.2 ⟨sign negative, plain⟩⟩

theorem plain_dateText (v : ℤ) : Plain (dateText v).toList := by
  simp [dateText]

theorem plain_dateTimeText (v : ℤ) : Plain (dateTimeText v).toList := by
  simp [dateTimeText]

theorem plain_timeText (v : ℤ) : Plain (timeText v).toList := by
  have sign : Plain (if v < 0 then ['-'] else []) := by split <;> decide
  simpa [timeText] using sign

theorem plain_yearText (v : ℤ) : Plain (yearText v).toList := by
  unfold yearText
  split
  · decide
  · exact (plain_toString _).2

theorem plain_timestampText {seconds : ℤ} {text : String}
    (within : timestampText seconds = .ok text) : Plain text.toList := by
  have year (v : ℤ) : Plain (calendarYear v) := by
    unfold calendarYear
    split
    · exact plain_zeroFilled _ _
    · split <;> simp
  unfold timestampText at within
  dsimp only at within
  split at within
  · cases within
    simp [year]
  · cases within

theorem plain_byteHex (b : UInt8) : Plain (byteHex b) := by
  have digit : ∀ v < 16, Plain [capitalHexDigit v] := by decide
  have small := b.toNat_lt
  exact plain_append.2 ⟨digit (b.toNat / 16) (by omega), digit (b.toNat % 16) (by omega)⟩

theorem plain_flatMap_byteHex (bytes : List UInt8) : Plain (bytes.flatMap byteHex) := by
  intro c inside
  obtain ⟨b, -, inside⟩ := List.mem_flatMap.1 inside
  exact plain_byteHex b c inside

end GroupedTables.Record
