import GroupedTables.Floating.Rounding
import Mathlib.Algebra.Order.Floor.Ring
import Mathlib.Data.Rat.Floor
import Mathlib.Tactic.FieldSimp
import Mathlib.Tactic.Positivity

/-!
# Nearest floats

A natural number has the float nearest to it in units of a power of two, so that 53 bits are left
of it; below `2 ^ 53` that is the number itself. Halves and larger fractions of two are rounded in
the same way, whatever the exponents they are written with.
-/

namespace GroupedTables.Floating

variable {n m num den k a j : ℕ}

/-- How a quotient is written does not matter. -/
theorem roundHalfEven_mul (num den : ℕ) (some : 0 < k) :
    roundHalfEven (num * k) (den * k) = roundHalfEven num den := by
  have less (x y : ℕ) : x * k < y * k ↔ x < y := Nat.mul_lt_mul_right some
  unfold roundHalfEven
  dsimp only
  rw [Nat.mul_div_mul_right _ _ some, Nat.mul_mod_mul_right, ← Nat.mul_assoc]
  simp only [less]

theorem roundHalfEven_congr {num' den' : ℕ} (some : 0 < den) (some' : 0 < den')
    (same : num * den' = num' * den) : roundHalfEven num den = roundHalfEven num' den' := by
  rw [← roundHalfEven_mul num den some', ← roundHalfEven_mul num' den' some, same,
    Nat.mul_comm den den']

/-- A quotient between two whole numbers stays between them. -/
theorem roundHalfEven_between {low high : ℕ} (some : 0 < den) (above : low * den ≤ num)
    (below : num ≤ high * den) :
    low ≤ roundHalfEven num den ∧ roundHalfEven num den ≤ high := by
  have quotient : low ≤ num / den := (Nat.le_div_iff_mul_le some).2 above
  have split := Nat.div_add_mod num den
  have upper : num % den ≠ 0 → num / den + 1 ≤ high := by
    intro rest
    refine (Nat.div_lt_iff_lt_mul some).2 (Nat.lt_of_le_of_ne below ?_)
    rintro rfl
    exact rest (Nat.mul_mod_left ..)
  have upper' : num / den ≤ high := Nat.div_le_of_le_mul (by rwa [Nat.mul_comm])
  unfold roundHalfEven
  dsimp only
  split
  · exact ⟨quotient, upper'⟩
  · split
    case isTrue =>
      have := upper (by omega)
      omega
    case isFalse =>
      have := upper (by omega)
      omega

theorem roundHalfEven_self (some : 0 < den) : roundHalfEven (m * den) den = m := by
  obtain ⟨above, below⟩ := roundHalfEven_between some (Nat.le_refl (m * den)) (Nat.le_refl _)
  exact Nat.le_antisymm below above

/-- Next to a multiple of the divisor the quotient is the multiple. -/
theorem roundHalfEven_next (large : 4 ≤ den) (near : num = m * den + 1 ∨ num + 1 = m * den) :
    roundHalfEven num den = m := by
  obtain rfl | near := near
  · have quotient : (m * den + 1) / den = m := by
      rw [Nat.mul_comm, Nat.mul_add_div (by omega), Nat.div_eq_of_lt (by omega), Nat.add_zero]
    have rest : (m * den + 1) % den = 1 := by
      rw [Nat.mul_comm, Nat.mul_add_mod, Nat.mod_eq_of_lt (by omega)]
    unfold roundHalfEven
    dsimp only
    rw [quotient, rest, if_pos (by omega)]
  · obtain ⟨m, rfl⟩ : ∃ m', m = m' + 1 := by
      cases m with
      | zero => simp at near
      | succ m' => exact ⟨m', rfl⟩
    have same : num = m * den + (den - 1) := by
      rw [Nat.succ_mul] at near
      omega
    have quotient : num / den = m := by
      rw [same, Nat.mul_comm, Nat.mul_add_div (by omega), Nat.div_eq_of_lt (by omega), Nat.add_zero]
    have rest : num % den = den - 1 := by
      rw [same, Nat.mul_comm, Nat.mul_add_mod, Nat.mod_eq_of_lt (by omega)]
    unfold roundHalfEven
    dsimp only
    rw [quotient, rest, if_neg (by omega), if_pos (by omega)]

/-- The unit in which a number has 53 bits, or one if it has fewer. -/
def unitOf (n : ℕ) : ℕ := 2 ^ (n.log2 - 52)

def nearestNat (n : ℕ) : ℕ := roundHalfEven n (unitOf n) * unitOf n

theorem unitOf_pos (n : ℕ) : 0 < unitOf n := Nat.two_pow_pos _

theorem nearestNat_of_dvd (whole : unitOf n ∣ n) : nearestNat n = n := by
  obtain ⟨m, same⟩ := whole
  have rounded : roundHalfEven n (unitOf n) = m := by
    rw [Nat.mul_comm] at same
    exact (congrArg (roundHalfEven · (unitOf n)) same).trans (roundHalfEven_self (unitOf_pos n))
  rw [nearestNat, rounded, Nat.mul_comm, ← same]

theorem unitOf_dvd_nearestNat (n : ℕ) : unitOf n ∣ nearestNat n := Nat.dvd_mul_left ..

theorem nearestNat_eq_iff : nearestNat n = n ↔ unitOf n ∣ n :=
  ⟨fun same => by have whole := unitOf_dvd_nearestNat n; rwa [same] at whole, nearestNat_of_dvd⟩

theorem unitOf_of_lt (small : n < 2 ^ 53) : unitOf n = 1 := by
  have short : n.log2 ≤ 52 := by
    by_cases zero : n = 0
    · rw [zero]
      decide
    · exact Nat.le_of_lt_succ ((Nat.log2_lt zero).2 small)
  rw [unitOf, Nat.sub_eq_zero_of_le short]
  rfl

/-- Numbers of up to 53 bits are floats, and so is the next one. -/
theorem nearestNat_of_le (small : n ≤ 2 ^ 53) : nearestNat n = n := by
  refine nearestNat_of_dvd ?_
  obtain less | rfl := Nat.lt_or_eq_of_le small
  · exact unitOf_of_lt less ▸ Nat.one_dvd n
  · decide

theorem unitOf_of_le (large : 2 ^ 53 ≤ n) : unitOf n * 2 ^ 52 = 2 ^ n.log2 ∧ 2 ∣ unitOf n := by
  have some : n ≠ 0 := by omega
  have long : 53 ≤ n.log2 := (Nat.le_log2 some).2 large
  obtain ⟨more, same⟩ := Nat.exists_eq_add_of_le long
  rw [unitOf, ← Nat.pow_add, same]
  refine ⟨by congr 1; omega, ?_⟩
  rw [show 53 + more - 52 = more + 1 by omega, Nat.pow_succ]
  exact Nat.dvd_mul_left ..

/-- Rounding does not leave the powers of two around a number. -/
theorem nearestNat_between (some : n ≠ 0) :
    2 ^ n.log2 ≤ nearestNat n ∧ nearestNat n ≤ 2 ^ (n.log2 + 1) := by
  have low := Nat.log2_self_le some
  have high : n < 2 ^ (n.log2 + 1) := Nat.lt_log2_self
  by_cases small : n < 2 ^ 53
  · rw [nearestNat_of_le (Nat.le_of_lt small)]
    exact ⟨low, Nat.le_of_lt high⟩
  · obtain ⟨unit, -⟩ := unitOf_of_le (Nat.not_lt.1 small)
    have double : 2 ^ (n.log2 + 1) = 2 ^ 53 * unitOf n := by
      rw [Nat.pow_succ, ← unit]
      ring
    rw [← unit, Nat.mul_comm] at low
    rw [double] at high
    obtain ⟨above, below⟩ := roundHalfEven_between (unitOf_pos n) low (Nat.le_of_lt high)
    rw [double, ← unit, Nat.mul_comm (unitOf n)]
    exact ⟨Nat.mul_le_mul_right _ above, Nat.mul_le_mul_right _ below⟩

theorem nearestNat_le (small : n < 2 ^ k) : nearestNat n ≤ 2 ^ k := by
  by_cases zero : n = 0
  · rw [zero]
    exact Nat.zero_le _
  · exact Nat.le_trans (nearestNat_between zero).2
      (Nat.pow_le_pow_right (by decide) ((Nat.log2_lt zero).2 small))

theorem le_nearestNat (large : 2 ^ k ≤ n) : 2 ^ k ≤ nearestNat n := by
  have some : n ≠ 0 := Nat.pos_iff_ne_zero.1 (Nat.lt_of_lt_of_le (Nat.two_pow_pos k) large)
  exact Nat.le_trans (Nat.pow_le_pow_right (by decide) ((Nat.le_log2 some).2 large))
    (nearestNat_between some).1

/-- The float nearest to a number is a float. -/
theorem nearestNat_nearestNat (n : ℕ) : nearestNat (nearestNat n) = nearestNat n := by
  by_cases zero : n = 0
  · rw [zero]
    rfl
  obtain ⟨low, high⟩ := nearestNat_between zero
  have nonzero : nearestNat n ≠ 0 :=
    Nat.pos_iff_ne_zero.1 (Nat.lt_of_lt_of_le (Nat.two_pow_pos _) low)
  refine nearestNat_of_dvd ?_
  by_cases top : nearestNat n = 2 ^ (n.log2 + 1)
  · rw [top, unitOf, Nat.log2_two_pow]
    exact Nat.pow_dvd_pow 2 (Nat.sub_le ..)
  · have same : (nearestNat n).log2 = n.log2 :=
      (Nat.log2_eq_iff nonzero).2 ⟨low, Nat.lt_of_le_of_ne high top⟩
    rw [unitOf, same]
    exact unitOf_dvd_nearestNat n

theorem log2_mul_two_pow (some : n ≠ 0) (a : ℕ) : (n * 2 ^ a).log2 = n.log2 + a := by
  refine (Nat.log2_eq_iff (Nat.mul_ne_zero some (Nat.two_pow_pos a).ne')).2 ⟨?_, ?_⟩
  · rw [Nat.pow_add]
    exact Nat.mul_le_mul_right _ (Nat.log2_self_le some)
  · rw [show n.log2 + a + 1 = n.log2 + 1 + a by omega, Nat.pow_add]
    exact Nat.mul_lt_mul_of_pos_right Nat.lt_log2_self (Nat.two_pow_pos a)

/-- In any unit, a fraction of powers of two is such a fraction. -/
theorem exists_inUnits (num j : ℕ) (q : ℤ) : ∃ b c : ℕ,
    inUnits num (2 ^ j) q = (num * 2 ^ b, 2 ^ c) ∧ (c : ℤ) - b = j + q := by
  unfold inUnits
  split
  case isTrue below => exact ⟨(-q).toNat, j, rfl, by omega⟩
  case isFalse above =>
    refine ⟨0, j + q.toNat, ?_, by omega⟩
    rw [Nat.pow_zero, Nat.mul_one, Nat.pow_add]
    rfl

/-- With a power of two below it, a number fills up the significand in the first unit tried. -/
theorem unitExponent_dyadic (some : num ≠ 0)
    (normal : binary64.leastExponent < (num.log2 : ℤ) - j - 52) :
    binary64.unitExponent num (2 ^ j) = (num.log2 : ℤ) - j - 52 := by
  have low := Nat.log2_self_le some
  obtain ⟨b, c, units, same⟩ := exists_inUnits num j ((num.log2 : ℤ) - j - 52)
  have full : ¬num * 2 ^ b / 2 ^ c < 2 ^ 52 := by
    rw [not_lt, Nat.le_div_iff_mul_le (Nat.two_pow_pos c), ← Nat.pow_add,
      show 52 + c = num.log2 + b by omega, Nat.pow_add]
    exact Nat.mul_le_mul_right _ low
  have bits : (binary64.fractionBits : ℤ) = 52 := rfl
  unfold Format.unitExponent
  dsimp only
  rw [Nat.log2_two_pow, bits, if_neg (not_le.2 normal), units]
  exact if_neg full

/-- What is left of a number in 53 bits stands for the float nearest to it. -/
theorem significand_eq (some : n ≠ 0) {b c : ℕ} (unit : c + 52 = n.log2 + b) :
    (roundHalfEven (n * 2 ^ b) (2 ^ c) : ℚ) * 2 ^ ((n.log2 : ℤ) - 52) = nearestNat n := by
  by_cases long : 52 ≤ n.log2
  · have same : roundHalfEven (n * 2 ^ b) (2 ^ c) = roundHalfEven n (unitOf n) := by
      refine roundHalfEven_congr (Nat.two_pow_pos c) (unitOf_pos n) ?_
      rw [unitOf, Nat.mul_assoc, ← Nat.pow_add, show b + (n.log2 - 52) = c by omega]
    have power : ((2 : ℚ)) ^ ((n.log2 : ℤ) - 52) = unitOf n := by
      rw [unitOf, show (n.log2 : ℤ) - 52 = ((n.log2 - 52 : ℕ) : ℤ) by omega, zpow_natCast]
      push_cast
      rfl
    rw [same, power, nearestNat]
    push_cast
    rfl
  · have high : n < 2 ^ (n.log2 + 1) := Nat.lt_log2_self
    have small : n < 2 ^ 53 :=
      Nat.lt_of_lt_of_le high (Nat.pow_le_pow_right (by decide) (by omega))
    have exact : n * 2 ^ b = n * 2 ^ (52 - n.log2) * 2 ^ c := by
      rw [Nat.mul_assoc, ← Nat.pow_add, show 52 - n.log2 + c = b by omega]
    rw [exact, roundHalfEven_self (Nat.two_pow_pos c),
      nearestNat_of_le (Nat.le_of_lt small),
      show (n.log2 : ℤ) - 52 = -((52 - n.log2 : ℕ) : ℤ) by omega, zpow_neg, zpow_natCast]
    push_cast
    field_simp

/-- A significand that was rounded up to the next power of two is halved. -/
theorem nearest_eq (negative : Bool) {num den n d : ℕ} {q : ℤ} (some : num ≠ 0)
    (exponent : binary64.unitExponent num den = q) (units : inUnits num den q = (n, d)) :
    ∃ m q', binary64.nearest negative num den =
        (if 971 < q' then .infinite negative else .finite negative m q') ∧
      (m : ℚ) * 2 ^ q' = roundHalfEven n d * 2 ^ q ∧ q' ≤ q + 1 := by
  have top : binary64.leastExponent + (binary64.topField - 2 : ℕ) = 971 := by decide
  have bound : binary64.significandBound = 2 ^ 53 := rfl
  unfold Format.nearest
  rw [if_neg some, exponent]
  dsimp only
  rw [units, bound]
  dsimp only
  by_cases full : roundHalfEven n d = 2 ^ 53
  · refine ⟨2 ^ 52, q + 1, ?_, ?_, le_refl _⟩
    · rw [if_pos full, top]
      rfl
    · rw [full, zpow_add₀ (by norm_num)]
      norm_num
      ring
  · refine ⟨_, q, ?_, rfl, by omega⟩
    rw [if_neg full, top]

/-- The float nearest to `± n · 2 ^ a / 2 ^ j` has the significand of the float nearest to `n`,
unless it is beyond the greatest of them. -/
theorem nearest_dyadic (negative : Bool) (some : n ≠ 0)
    (normal : binary64.leastExponent < (n.log2 : ℤ) + a - j - 52) :
    (∃ m q, binary64.nearest negative (n * 2 ^ a) (2 ^ j) = .finite negative m q ∧
      (m : ℚ) * 2 ^ q = nearestNat n * 2 ^ ((a : ℤ) - j)) ∨
    binary64.nearest negative (n * 2 ^ a) (2 ^ j) = .infinite negative ∧
      2 ^ (200 + j) ≤ n * 2 ^ a := by
  have some' : n * 2 ^ a ≠ 0 := Nat.mul_ne_zero some (Nat.two_pow_pos a).ne'
  have log := log2_mul_two_pow some a
  have exponent := unitExponent_dyadic (j := j) some' (by rw [log]; push_cast; exact normal)
  obtain ⟨b, c, units, unit⟩ := exists_inUnits (n * 2 ^ a) j ((n * 2 ^ a).log2 - j - 52)
  obtain ⟨m, q, nearest, value, most⟩ := nearest_eq negative some' exponent units
  have significand := significand_eq some (b := a + b) (c := c) (by omega)
  rw [Nat.pow_add, ← Nat.mul_assoc] at significand
  rw [nearest]
  by_cases far : 971 < q
  · refine .inr ⟨if_pos far, ?_⟩
    refine Nat.le_trans (Nat.pow_le_pow_right (by decide) ?_) (Nat.log2_self_le some')
    omega
  · refine .inl ⟨m, q, if_neg far, ?_⟩
    have shift : (((n * 2 ^ a).log2 : ℤ) - j - 52) = ((n.log2 : ℤ) - 52) + (a - j) := by
      rw [log]
      push_cast
      ring
    rw [value, shift, zpow_add₀ (by norm_num), ← mul_assoc, significand]

end GroupedTables.Floating
