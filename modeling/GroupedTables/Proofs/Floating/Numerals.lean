import GroupedTables.Floating.Text
import GroupedTables.Proofs.Floating.Whole
import GroupedTables.Proofs.Text.Digits
import GroupedTables.Text.Normal
import Mathlib.Data.List.TakeWhile

/-!
# Integers read as floats

A numeral is a run of digits behind a minus sign that may be left out. Read as a float it is the
float nearest to the integer it denotes, however many digits it has. An integer is written as a
numeral that denotes it.
-/

namespace GroupedTables.Floating

open Text

/-- A text without the minus sign in front of it, if it has one. -/
def unsignedPart : List Char → List Char
  | '-' :: ds => ds
  | ds => ds

def numeralValue : List Char → ℤ
  | '-' :: ds => -digitsValue ds
  | ds => digitsValue ds

/-- The text is a numeral, and this is the integer that it denotes. -/
structure Denotes (text : String) (v : ℤ) : Prop where
  nonempty : unsignedPart text.toList ≠ []
  digits : ∀ c ∈ unsignedPart text.toList, c.isDigit = true
  value : numeralValue text.toList = v

variable {text : String} {v w : ℤ} {ds : List Char} {c : Char}

instance : Decidable (Denotes text v) :=
  decidable_of_iff (unsignedPart text.toList ≠ [] ∧
      (unsignedPart text.toList).all Char.isDigit = true ∧ numeralValue text.toList = v)
    ⟨fun ⟨nonempty, digits, value⟩ => ⟨nonempty, List.all_eq_true.1 digits, value⟩,
      fun h => ⟨h.nonempty, List.all_eq_true.2 h.digits, h.value⟩⟩

theorem Denotes.eq (h : Denotes text v) (h' : Denotes text w) : v = w := h.value.symm.trans h'.value

/-- Without a minus sign in front, all of a text is digits. -/
theorem unsigned_of_ne {cs : List Char} (plain : ∀ ds, cs ≠ '-' :: ds) :
    unsignedPart cs = cs ∧ numeralValue cs = digitsValue cs := by
  cases cs with
  | nil => exact ⟨rfl, rfl⟩
  | cons c rest =>
    unfold unsignedPart numeralValue
    constructor
    all_goals
      split
      · rename_i same
        exact absurd same (plain _)
      · rfl

/-- A numeral is its digits, or these behind a minus sign. -/
theorem Denotes.cases (h : Denotes text v) : ∃ ds, ds ≠ [] ∧ (∀ c ∈ ds, c.isDigit = true) ∧
    (text.toList = ds ∧ v = digitsValue ds ∨ text.toList = '-' :: ds ∧ v = -digitsValue ds) := by
  obtain ⟨some, digits, value⟩ := h
  by_cases signed : ∃ ds, text.toList = '-' :: ds
  · obtain ⟨ds, chars⟩ := signed
    rw [chars] at some digits value
    exact ⟨ds, some, digits, .inr ⟨chars, value.symm⟩⟩
  · obtain ⟨part, whole⟩ := unsigned_of_ne (not_exists.1 signed)
    rw [part] at some digits
    exact ⟨_, some, digits, .inl ⟨rfl, value.symm.trans whole⟩⟩

theorem ne_of_isDigit {mark : Char} (digit : c.isDigit = true) (other : mark.isDigit = false) :
    c ≠ mark := by
  rintro rfl
  exact Bool.false_ne_true (other.symm.trans digit)

theorem isBlank_of_isDigit (digit : c.isDigit = true) : isBlank c = false := by
  have bounds := bounds_of_isDigit digit
  unfold isBlank
  simp only [Bool.or_eq_false_iff, Bool.and_eq_false_iff, decide_eq_false_iff_not,
    beq_eq_false_iff_ne]
  omega

theorem toLower_of_isDigit (digit : c.isDigit = true) : c.toLower = c := by
  have most : c.val.toNat ≤ 57 := (bounds_of_isDigit digit).2
  refine dif_neg fun upper => ?_
  have least : (65 : UInt32) ≤ c.val := upper.1
  rw [UInt32.le_iff_toNat_le] at least
  exact absurd (Nat.le_trans least most) (by decide)

theorem trimChars_eq {cs : List Char} (none : ∀ c ∈ cs, isBlank c = false) :
    trimChars cs = cs := by
  have kept (cs : List Char) (none : ∀ c ∈ cs, isBlank c = false) : cs.dropWhile isBlank = cs := by
    cases cs with
    | nil => rfl
    | cons c rest =>
      exact List.dropWhile_cons_of_neg (by rw [none c (.head _)]; exact Bool.false_ne_true)
  rw [trimChars, kept cs none, kept cs.reverse fun c inside => none c (List.mem_reverse.1 inside),
    List.reverse_reverse]

/-- There is nothing to trim off a numeral. -/
theorem Denotes.trim_eq (h : Denotes text v) : Text.trim text = text := by
  obtain ⟨ds, -, digits, ⟨chars, -⟩ | ⟨chars, -⟩⟩ := h.cases
  · rw [Text.trim, trimChars_eq, String.ofList_toList]
    exact fun c inside => isBlank_of_isDigit (digits c (chars ▸ inside))
  · rw [Text.trim, trimChars_eq, String.ofList_toList]
    rw [chars]
    exact List.forall_mem_cons.2 ⟨rfl, fun c inside => isBlank_of_isDigit (digits c inside)⟩

theorem ofDecimal_reads (negative : Bool) (n : ℕ) :
    (ofDecimal negative n 0).Reads (if negative then -n else n) := by
  have signed (some : n ≠ 0) : decide ((if negative then -(n : ℤ) else n) < 0) = negative := by
    cases negative
    · exact decide_eq_false (by simp)
    · exact decide_eq_true (by simpa using Nat.pos_of_ne_zero some)
  have magnitude : (if negative then -(n : ℤ) else n).natAbs = n := by
    cases negative <;> simp
  unfold ofDecimal
  dsimp only
  by_cases zero : n = 0
  · subst zero
    rw [if_pos (by simp)]
    have none : (if negative then -((0 : ℕ) : ℤ) else (0 : ℕ)) = 0 := by cases negative <;> rfl
    rw [none]
    exact reads_zero _ _
  have large : ¬(decide (n = 0) || decide (((Text.digits n).length : ℤ) + 0 < -400)) = true := by
    simp only [Bool.or_eq_true, decide_eq_true_eq]
    omega
  rw [if_neg large]
  by_cases far : 400 < ((Text.digits n).length : ℤ) + 0
  · rw [if_pos far]
    refine .inr ⟨by rw [signed zero], ?_⟩
    rw [magnitude]
    by_contra small
    have fits : n < 10 ^ 61 := Nat.lt_trans (Nat.not_le.1 small) (by norm_num)
    have short := (Nat.length_toDigits_le_iff (by decide) (by decide)).2 fits
    unfold Text.digits at far
    omega
  · have reads := reads_nearest (if negative then -n else n)
    rw [signed zero, magnitude] at reads
    have one : n * Nat.pow 10 (Int.toNat 0) = n := Nat.mul_one n
    rw [if_neg far, if_neg (by decide), one]
    exact reads

/-- A run of digits is read as the float nearest to the number it stands for. -/
theorem unsignedNumber?_digits (negative : Bool) (some : ds ≠ [])
    (digits : ∀ c ∈ ds, c.isDigit = true) :
    unsignedNumber? negative ds = Option.some (ofDecimal negative (digitsValue ds) 0) := by
  have lower : ds.map Char.toLower = ds := by
    refine (List.map_congr_left fun c inside => toLower_of_isDigit (digits c inside)).trans ?_
    exact List.map_id ds
  have named {name : String} {c : Char} (first : name.toList.head? = Option.some c)
      (letter : c.isDigit = false) : ¬ds = name.toList := by
    rintro rfl
    obtain ⟨rest, same⟩ := List.head?_eq_some_iff.1 first
    exact ne_of_isDigit (digits c (same ▸ .head _)) letter rfl
  have marks : ∀ c ∈ ds, (!(decide (c = 'e') || decide (c = 'E'))) = true := by
    intro c inside
    have digit := digits c inside
    simp [ne_of_isDigit digit (show 'e'.isDigit = false from rfl),
      ne_of_isDigit digit (show 'E'.isDigit = false from rfl)]
  have front := List.takeWhile_eq_self_iff.2 marks
  have behind := List.dropWhile_eq_nil_iff.2 marks
  have whole := List.takeWhile_eq_self_iff.2 digits
  have rest := List.dropWhile_eq_nil_iff.2 digits
  have mantissa : mantissa? ds = Option.some (digitsValue ds, 0) := by
    unfold mantissa?
    rw [whole, rest]
    simp [some]
  unfold unsignedNumber?
  simp only [lower, Bool.or_eq_true, decide_eq_true_eq]
  rw [if_neg, if_neg]
  · rw [front, behind, mantissa]
    rfl
  · exact named rfl rfl
  · exact not_or.2 ⟨named rfl rfl, named rfl rfl⟩

/-- A numeral is read as the float nearest to the integer it denotes. -/
theorem Denotes.number? (h : Denotes text v) : ∃ x, Floating.number? text = some x ∧ x.Reads v := by
  obtain ⟨ds, some, digits, ⟨chars, value⟩ | ⟨chars, value⟩⟩ := h.cases
  · refine ⟨_, ?_, value ▸ ofDecimal_reads false (digitsValue ds)⟩
    rw [← unsignedNumber?_digits false some digits, Floating.number?, chars]
    split
    · exact absurd rfl (ne_of_isDigit (digits _ (.head _)) rfl)
    · exact absurd rfl (ne_of_isDigit (digits _ (.head _)) rfl)
    · rfl
  · refine ⟨_, ?_, value ▸ ofDecimal_reads true (digitsValue ds)⟩
    rw [← unsignedNumber?_digits true some digits, Floating.number?, chars]
    rfl

/-- An integer is written as a numeral that denotes it. -/
theorem denotes_toString (v : ℤ) : Denotes (toString v) v := by
  cases v with
  | ofNat n =>
    have chars : (toString (Int.ofNat n)).toList = Text.digits n := Nat.toList_repr
    have plain : ∀ ds, Text.digits n ≠ '-' :: ds := by
      intro ds same
      have digit : '-'.isDigit = true := isDigit_digits (n := n) (same ▸ .head _)
      exact absurd digit (by decide)
    obtain ⟨part, value⟩ := unsigned_of_ne plain
    constructor
    · rw [chars, part]
      exact Nat.toDigits_ne_nil
    · rw [chars, part]
      exact fun c inside => isDigit_digits inside
    · rw [chars, value, digitsValue_digits]
      rfl
  | negSucc n =>
    have chars : (toString (Int.negSucc n)).toList = '-' :: Text.digits (n + 1) := by
      show ("-" ++ (n + 1).repr).toList = _
      rw [String.toList_append, Nat.toList_repr]
      rfl
    constructor
    · rw [chars]
      exact Nat.toDigits_ne_nil
    · rw [chars]
      exact fun c inside => isDigit_digits inside
    · rw [chars, numeralValue, digitsValue_digits]
      rfl

theorem denotes_toString_iff : Denotes (toString v) w ↔ v = w := by
  constructor
  · exact (denotes_toString v).eq
  · rintro rfl
    exact denotes_toString v

end GroupedTables.Floating
