import GroupedTables.Text.Digits
import Mathlib.Data.List.Induction
import Mathlib.Tactic.Ring

/-!
# Digits and the numbers they stand for

A number is found again from its digits, however many zeros they are filled up with, and a
run of digits stands for what its parts stand for, shifted by the length of what follows.
-/

namespace GroupedTables.Text

variable {n width : Nat} {ds es : List Char} {c : Char}

theorem digitsValue_append (ds es : List Char) :
    digitsValue (ds ++ es) = digitsValue ds * 10 ^ es.length + digitsValue es := by
  have shifted (m : Nat) (es : List Char) :
      es.foldl (fun n c => 10 * n + (c.toNat - 48)) m = m * 10 ^ es.length + digitsValue es := by
    induction es generalizing m with
    | nil => simp
    | cons c rest ih =>
      rw [digitsValue, List.foldl_cons, List.foldl_cons, ih, ih (10 * 0 + _), List.length_cons]
      ring
  rw [digitsValue, List.foldl_append]
  exact shifted _ _

theorem digitsValue_singleton {d : Nat} (small : d < 10) : digitsValue [d.digitChar] = d := by
  simp only [digitsValue, List.foldl_cons, List.foldl_nil,
    Nat.toNat_digitChar_sub_48_of_lt_ten small]
  omega

theorem digitsValue_digits (n : Nat) : digitsValue (digits n) = n := by
  induction n using Nat.strong_induction_on with
  | _ n ih =>
    unfold digits at ih ⊢
    by_cases small : n < 10
    · rw [Nat.toDigits_of_lt_base small, digitsValue_singleton small]
    · rw [Nat.toDigits_of_base_le (by omega) (by omega), digitsValue_append, ih _ (by omega),
        digitsValue_singleton (by omega), List.length_singleton]
      omega

theorem digitsValue_zeros (count : Nat) : digitsValue (List.replicate count '0') = 0 := by
  induction count with
  | zero => rfl
  | succ count ih => rw [List.replicate_succ', digitsValue_append, ih]; rfl

/-- Zeros in front are worth nothing. -/
theorem digitsValue_zeroFilled (width n : Nat) : digitsValue (zeroFilled width n) = n := by
  rw [zeroFilled, digitsValue_append, digitsValue_zeros, digitsValue_digits, Nat.zero_mul,
    Nat.zero_add]

theorem digitsValue_dropWhile (ds : List Char) :
    digitsValue (ds.dropWhile (· = '0')) = digitsValue ds := by
  induction ds with
  | nil => rfl
  | cons c rest ih =>
    by_cases zero : c = '0'
    · rw [List.dropWhile_cons_of_pos (by simpa using zero), ih, zero,
        ← List.singleton_append (l := rest), digitsValue_append]
      exact (Nat.zero_add _).symm.trans (by simp [digitsValue])
    · rw [List.dropWhile_cons_of_neg (by simpa using zero)]

/-- A number that has room within a width is filled up to the width. -/
theorem length_zeroFilled (some : 0 < width) (small : n < 10 ^ width) :
    (zeroFilled width n).length = width := by
  have short : (digits n).length ≤ width := (Nat.length_toDigits_le_iff (by omega) some).2 small
  rw [zeroFilled, List.length_append, List.length_replicate]
  omega

theorem isDigit_digits (inside : c ∈ digits n) : c.isDigit = true :=
  Nat.isDigit_of_mem_toDigits (by decide) (by decide) inside

theorem isDigit_zeroFilled (inside : c ∈ zeroFilled width n) : c.isDigit = true := by
  obtain inside | inside := List.mem_append.1 inside
  · rw [(List.mem_replicate.1 inside).2]
    rfl
  · exact isDigit_digits inside

theorem digitsValue_char (c : Char) : digitsValue [c] = c.toNat - 48 := Nat.zero_add _

theorem bounds_of_isDigit (digit : c.isDigit = true) : 48 ≤ c.toNat ∧ c.toNat ≤ 57 :=
  Char.isDigit_iff_toNat.1 digit

theorem digitsValue_lt (all : ∀ c ∈ ds, c.isDigit = true) : digitsValue ds < 10 ^ ds.length := by
  induction ds using List.reverseRecOn with
  | nil => decide
  | append_singleton front last ih =>
    have small := ih fun c inside => all c (List.mem_append_left _ inside)
    have digit := bounds_of_isDigit (all last (by simp))
    rw [digitsValue_append, digitsValue_char, List.length_append, List.length_singleton,
      Nat.pow_one, Nat.pow_succ]
    omega

/-- Runs of as many digits that stand for one number are one run. -/
theorem eq_of_digitsValue_eq (same : ds.length = es.length) (all : ∀ c ∈ ds, c.isDigit = true)
    (all' : ∀ c ∈ es, c.isDigit = true) (value : digitsValue ds = digitsValue es) : ds = es := by
  induction ds using List.reverseRecOn generalizing es with
  | nil => exact (List.length_eq_zero_iff.1 same.symm).symm
  | append_singleton front last ih =>
    obtain rfl | ⟨front', last', rfl⟩ := List.eq_nil_or_concat es
    · simp at same
    · rw [List.concat_eq_append] at same all' value ⊢
      have digit := bounds_of_isDigit (all last (by simp))
      have digit' := bounds_of_isDigit (all' last' (by simp))
      rw [digitsValue_append, digitsValue_append, digitsValue_char, digitsValue_char,
        List.length_singleton, List.length_singleton, Nat.pow_one] at value
      have fronts : front = front' := by
        refine ih (by simpa using same) (fun c inside => all c (List.mem_append_left _ inside))
          (fun c inside => all' c (List.mem_append_left _ inside)) ?_
        omega
      have lasts : last = last' := by
        rw [fronts] at value
        apply Char.toNat_inj.1
        omega
      rw [fronts, lasts]

/-- The last digits of a number, as many as a column is wide. -/
def lastDigits : Nat → Nat → List Char
  | 0, _ => []
  | width + 1, n => lastDigits width (n / 10) ++ [(n % 10).digitChar]

@[simp] theorem length_lastDigits (width n : Nat) : (lastDigits width n).length = width := by
  induction width generalizing n with
  | zero => rfl
  | succ width ih => rw [lastDigits, List.length_append, ih, List.length_singleton]

theorem isDigit_lastDigits (inside : c ∈ lastDigits width n) : c.isDigit = true := by
  induction width generalizing n with
  | zero => cases inside
  | succ width ih =>
    obtain front | last := List.mem_append.1 inside
    · exact ih front
    · rw [List.mem_singleton.1 last, Nat.isDigit_digitChar]
      exact decide_eq_true (Nat.mod_lt n (by decide))

theorem digitsValue_lastDigits (small : n < 10 ^ width) : digitsValue (lastDigits width n) = n := by
  induction width generalizing n with
  | zero => exact (Nat.lt_one_iff.1 small).symm
  | succ width ih =>
    have front : n / 10 < 10 ^ width := Nat.div_lt_of_lt_mul (by rwa [Nat.pow_succ'] at small)
    rw [lastDigits, digitsValue_append, ih front,
      digitsValue_singleton (Nat.mod_lt n (by decide)), List.length_singleton]
    omega

/-- A number that has room in a column fills it with zeros. -/
theorem zeroFilled_eq_lastDigits (some : 0 < width) (small : n < 10 ^ width) :
    zeroFilled width n = lastDigits width n := by
  refine eq_of_digitsValue_eq ?_ (fun _ => isDigit_zeroFilled) (fun _ => isDigit_lastDigits) ?_
  · rw [length_zeroFilled some small, length_lastDigits]
  · rw [digitsValue_zeroFilled, digitsValue_lastDigits small]

/-- A number that is as wide as a column gets no zeros. -/
theorem zeroFilled_eq_digits (wide : width ≤ (digits n).length) :
    zeroFilled width n = digits n := by
  rw [zeroFilled, Nat.sub_eq_zero_of_le wide, List.replicate_zero, List.nil_append]

/-- The digits of a positive number do not begin with a zero. -/
theorem dropWhile_digits (some : n ≠ 0) : (digits n).dropWhile (· = '0') = digits n := by
  cases run : digits n with
  | nil => rfl
  | cons first rest =>
    apply List.dropWhile_cons_of_neg
    intro zero
    obtain rfl : first = '0' := by simpa using zero
    have value := digitsValue_digits n
    have small : digitsValue rest < 10 ^ rest.length :=
      digitsValue_lt fun c inside => isDigit_digits (n := n) (run ▸ List.mem_cons_of_mem _ inside)
    have cut := digitsValue_append ['0'] rest
    rw [List.singleton_append, ← run, value] at cut
    change n = 0 * 10 ^ rest.length + digitsValue rest at cut
    rw [Nat.zero_mul, Nat.zero_add] at cut
    rw [← cut] at small
    have positive : 0 < rest.length := by
      rw [List.length_pos_iff]
      rintro rfl
      exact some (by simpa using small)
    have short : (digits n).length ≤ rest.length :=
      (Nat.length_toDigits_le_iff (by decide) positive).2 small
    rw [run] at short
    exact absurd short (Nat.not_succ_le_self _)

/-- Without the zeros in front a number is its digits, and zero is nothing. -/
theorem dropWhile_zeroFilled (width n : Nat) :
    (zeroFilled width n).dropWhile (· = '0') = if n = 0 then [] else digits n := by
  rw [zeroFilled, List.dropWhile_append_of_pos (by simp)]
  split
  case isTrue zero => rw [zero]; rfl
  case isFalse some => exact dropWhile_digits some

end GroupedTables.Text
