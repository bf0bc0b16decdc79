import GroupedTables.Decimal.Basic
import Mathlib.Algebra.Order.Floor.Ring
import Mathlib.Data.Rat.Floor
import Mathlib.Tactic.FieldSimp
import Mathlib.Tactic.Positivity

/-!
# What rounding a decimal does to its value

Units are brought to a number of places with whole numbers only, and digits that are dropped
are counted before a power of ten is computed. What comes out is the value of the decimal in
units of the last place, with the half of a unit rounded away from zero.
-/

namespace GroupedTables.Decimal

open Text

/-- The value of a decimal. -/
def value (d : Decimal) : ℚ := d.units * 10 ^ (-d.scale)

/-- A value in units of the last of some places. The half of a unit goes away from zero. -/
def halfUp (x : ℚ) (places : ℕ) : ℤ :=
  if x < 0 then -⌊-x * 10 ^ places + 1 / 2⌋ else ⌊x * 10 ^ places + 1 / 2⌋

variable {n count : ℕ}

/-- With more digits dropped than there are, less than half of a unit is left. -/
theorem dropDigits_eq (n count : ℕ) :
    dropDigits n count = (2 * n + 10 ^ count) / (2 * 10 ^ count) := by
  unfold dropDigits
  split
  case isFalse => rfl
  case isTrue short =>
    obtain ⟨more, rfl⟩ : ∃ more, count = more + 1 := ⟨count - 1, by omega⟩
    have positive : 0 < (digits n).length := Nat.length_toDigits_pos
    have small : n < 10 ^ more :=
      (Nat.length_toDigits_le_iff (by decide) (by omega)).1 (Nat.le_of_lt_succ short)
    rw [Nat.pow_succ, Nat.div_eq_of_lt (by omega)]

theorem floor_dropped (n count : ℕ) :
    ⌊(n : ℚ) / 10 ^ count + 1 / 2⌋ = dropDigits n count := by
  have same : (n : ℚ) / 10 ^ count + 1 / 2 =
      ((2 * n + 10 ^ count : ℕ) : ℚ) / ((2 * 10 ^ count : ℕ) : ℚ) := by
    push_cast
    field_simp
  rw [same, dropDigits_eq]
  exact Rat.floor_natCast_div_natCast ..

theorem floor_filled (n : ℕ) : ⌊(n : ℚ) + 1 / 2⌋ = n := by
  rw [Int.floor_natCast_add]
  norm_num

/-- A magnitude in units of the last place. -/
theorem floor_shifted (n : ℕ) (scale : ℤ) (places : ℕ) :
    ⌊(n : ℚ) * 10 ^ (-scale) * 10 ^ places + 1 / 2⌋ =
      if scale ≤ places then (n : ℤ) * 10 ^ (places - scale).toNat
      else dropDigits n (scale - places).toNat := by
  have shift : (n : ℚ) * 10 ^ (-scale) * 10 ^ places = n * 10 ^ (places - scale) := by
    rw [mul_assoc, ← zpow_natCast, ← zpow_add₀ (by norm_num)]
    congr 2
    omega
  rw [shift]
  split
  case isTrue fits =>
    obtain ⟨more, same⟩ := Int.eq_ofNat_of_zero_le (Int.sub_nonneg_of_le fits)
    have whole := floor_filled (n * 10 ^ more)
    push_cast at whole
    rw [same, Int.toNat_natCast, zpow_natCast, whole]
  case isFalse beyond =>
    obtain ⟨more, same⟩ : ∃ more : ℕ, scale - places = more :=
      Int.eq_ofNat_of_zero_le (by omega)
    have negated : (places : ℤ) - scale = -(more : ℤ) := by omega
    rw [negated, same, Int.toNat_natCast, zpow_neg, zpow_natCast, ← div_eq_mul_inv, floor_dropped]

/-- Rounding gives the value in units of the last place, the half of one away from zero. -/
theorem roundedUnits_eq (d : Decimal) (places : ℕ) :
    d.roundedUnits places = halfUp d.value places := by
  have unit : (0 : ℚ) < 10 ^ (-d.scale) := zpow_pos (by norm_num) _
  obtain zero | nonzero := eq_or_ne d.units 0
  · have value : d.value = 0 := by rw [value, zero, Int.cast_zero, zero_mul]
    rw [roundedUnits, if_pos zero, value, halfUp, if_neg (lt_irrefl _)]
    norm_num
  · rw [roundedUnits, if_neg nonzero, halfUp]
    obtain ⟨n, same | same⟩ := Int.eq_nat_or_neg d.units
    · have value : d.value = n * 10 ^ (-d.scale) := by rw [value, same, Int.cast_natCast]
      have positive : ¬ d.value < 0 := not_lt.2 (by rw [value]; positivity)
      have sign : (n : ℤ).sign = 1 := Int.sign_eq_one_of_pos (by omega)
      rw [if_neg positive, value, floor_shifted, same, sign, one_mul, Int.natAbs_natCast]
      rfl
    · have value : d.value = -(n * 10 ^ (-d.scale)) := by
        rw [value, same, Int.cast_neg, Int.cast_natCast, neg_mul]
      have some : (0 : ℚ) < n := Nat.cast_pos.2 (by omega)
      have negative : d.value < 0 := by
        rw [value]
        exact neg_neg_of_pos (mul_pos some unit)
      have sign : (-(n : ℤ)).sign = -1 := Int.sign_eq_neg_one_of_neg (by omega)
      rw [if_pos negative, value, neg_neg, floor_shifted, same, sign, Int.natAbs_neg,
        Int.natAbs_natCast]
      split
      · rw [Int.neg_mul]
        rfl
      · rw [Int.neg_mul, one_mul]

end GroupedTables.Decimal
