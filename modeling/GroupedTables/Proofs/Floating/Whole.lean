import GroupedTables.Proofs.Floating.Nearest

/-!
# Whole numbers as floats

A whole number read as a float is the float nearest to it. Adding one half to a float that is a
whole number and taking the floor gives the number back, but not between `2 ^ 52` and `2 ^ 53`:
there the sum lies halfway between two floats, and the even one of them is taken.
-/

namespace GroupedTables.Floating

namespace Number

/-- The value of a finite number. -/
def value (negative : Bool) (m : ℕ) (q : ℤ) : ℚ := (if negative then -(m : ℚ) else m) * 2 ^ q

def Is : Number → ℚ → Prop
  | .finite negative m q, x => value negative m q = x
  | _, _ => False

variable {x y : Number} {negative : Bool} {m n : ℕ} {q e : ℤ} {v w : ℤ}

theorem value_eq {a : ℚ} (same : (m : ℚ) * 2 ^ q = a) :
    value negative m q = if negative then -a else a := by
  rw [value, ← same]
  split
  · exact neg_mul ..
  · rfl

theorem signedUnits_mul (negative : Bool) (m : ℕ) (below : e ≤ q) :
    (signedUnits negative m q e : ℚ) * 2 ^ e = value negative m q := by
  have shift : (2 : ℚ) ^ (q - e).toNat * 2 ^ e = 2 ^ q := by
    rw [← zpow_natCast, ← zpow_add₀ (by norm_num), Int.toNat_of_nonneg (by omega), sub_add_cancel]
  have magnitude : ((m * Nat.pow 2 (q - e).toNat : ℕ) : ℚ) * 2 ^ e = m * 2 ^ q := by
    rw [Nat.pow_eq, Nat.cast_mul, Nat.cast_pow, Nat.cast_ofNat, mul_assoc, shift]
  unfold signedUnits value
  cases negative
  · exact_mod_cast magnitude
  · simp only [if_true, Int.cast_neg, neg_mul]
    exact congrArg Neg.neg (by exact_mod_cast magnitude)

/-- Numbers are compared by value. -/
theorem sameValue_iff {a b : ℚ} (h : x.Is a) (h' : y.Is b) : x.sameValue y = true ↔ a = b := by
  match x, y, h, h' with
  | .finite s m q, .finite t n r, h, h' =>
    have unit : (2 : ℚ) ^ min q r ≠ 0 := zpow_ne_zero _ (by norm_num)
    have left := signedUnits_mul s m (min_le_left q r)
    have right := signedUnits_mul t n (min_le_right q r)
    rw [← h, ← h', ← left, ← right, mul_left_inj' unit, sameValue]
    simp

theorem floor_eq (negative : Bool) (m : ℕ) (q : ℤ) :
    floor negative m q = ⌊value negative m q⌋ := by
  have signed : (if negative then -(m : ℚ) else m) =
      ((if negative then -(m : ℤ) else m : ℤ) : ℚ) := by
    cases negative <;> simp
  unfold floor value
  rw [signed]
  dsimp only
  generalize (if negative then -(m : ℤ) else m : ℤ) = n
  by_cases below : q < 0
  · have power : (2 : ℚ) ^ q = ((Nat.pow 2 (-q).toNat : ℕ) : ℚ)⁻¹ := by
      rw [Nat.pow_eq, Nat.cast_pow, Nat.cast_ofNat, ← zpow_natCast, Int.toNat_of_nonneg (by omega),
        zpow_neg, inv_inv]
    rw [if_pos below, power, ← div_eq_mul_inv, Rat.floor_intCast_div_natCast]
  · have power : (2 : ℚ) ^ q = ((Nat.pow 2 q.toNat : ℕ) : ℤ) := by
      rw [Nat.pow_eq, Int.cast_natCast, Nat.cast_pow, Nat.cast_ofNat, ← zpow_natCast,
        Int.toNat_of_nonneg (by omega)]
    rw [if_neg below, power, ← Int.cast_mul, Int.floor_intCast]

end Number

def nearestInt (v : ℤ) : ℤ := if v < 0 then -nearestNat v.natAbs else nearestNat v.natAbs

variable {v : ℤ} {x : Number}

theorem natAbs_nearestInt (v : ℤ) : (nearestInt v).natAbs = nearestNat v.natAbs := by
  unfold nearestInt
  split <;> omega

theorem nearestInt_nearestInt (v : ℤ) : nearestInt (nearestInt v) = nearestInt v := by
  have twice := nearestNat_nearestNat v.natAbs
  have below : nearestInt v < 0 ∨ nearestInt v = 0 ∨ 0 < nearestInt v := by omega
  have same : (nearestInt v < 0 → v < 0) ∧ (0 < nearestInt v → 0 ≤ v) := by
    unfold nearestInt
    split <;> omega
  conv_lhs => rw [nearestInt, natAbs_nearestInt, twice, ← natAbs_nearestInt]
  split <;> omega

theorem nearestInt_of_le (small : v.natAbs ≤ 2 ^ 53) : nearestInt v = v := by
  rw [nearestInt, nearestNat_of_le small]
  split <;> omega

/-- Integers of more than 53 bits are read as even ones. -/
theorem nearestInt_large (large : 2 ^ 53 ≤ v.natAbs) :
    nearestInt v % 2 = 0 ∧ (nearestInt v < 0 ↔ v < 0) := by
  have even : 2 ∣ nearestNat v.natAbs :=
    Nat.dvd_trans (unitOf_of_le large).2 (unitOf_dvd_nearestNat v.natAbs)
  have above := le_nearestNat large
  unfold nearestInt
  split <;> omega

/-- The number is what an integer becomes as a float: the nearest one, or infinite if the integer
is beyond all of them. -/
def Number.Reads (x : Number) (v : ℤ) : Prop :=
  x.Is (nearestInt v) ∨ x = .infinite (decide (v < 0)) ∧ 2 ^ 200 ≤ v.natAbs

theorem reads_zero (negative : Bool) (q : ℤ) : (Number.finite negative 0 q).Reads 0 := by
  refine .inl ?_
  show Number.value _ _ _ = _
  rw [nearestInt_of_le (by decide)]
  simp [Number.value]

theorem reads_nearest (v : ℤ) : (binary64.nearest (decide (v < 0)) v.natAbs 1).Reads v := by
  by_cases zero : v = 0
  · subst zero
    exact reads_zero _ _
  have some : v.natAbs ≠ 0 := Int.natAbs_ne_zero.2 zero
  have least : binary64.leastExponent = -1074 := by decide
  have outcome := nearest_dyadic (a := 0) (j := 0) (decide (v < 0)) some (by rw [least]; omega)
  rw [Nat.pow_zero, Nat.mul_one, Nat.add_zero] at outcome
  obtain ⟨m, q, nearest, value⟩ | infinite := outcome
  · rw [nearest]
    rw [Nat.cast_zero, sub_zero, zpow_zero, mul_one] at value
    refine .inl ((Number.value_eq value).trans ?_)
    rw [nearestInt]
    by_cases below : v < 0 <;> simp [below]
  · exact .inr infinite

/-- An integer that is not beyond all floats has one nearest to it. -/
theorem is_ofInt (within : v.natAbs < 2 ^ 200) : (Number.ofInt v).Is (nearestInt v) :=
  (reads_nearest v).resolve_right fun far => Nat.not_le.2 within far.2

/-- What the floor of the sum with one half comes to. -/
def halfUp (v : ℤ) : ℤ := if (2 * v + 1).natAbs < 2 ^ 53 then v else v + v % 2

/-- From `2 ^ 54` on, the unit is four or more, and the double of a float is a multiple of it. -/
theorem unitOf_dvd_double (far : 2 ^ 54 ≤ (2 * v + 1).natAbs) (float : nearestInt v = v) :
    4 ∣ unitOf (2 * v + 1).natAbs ∧ unitOf (2 * v + 1).natAbs ∣ 2 * v.natAbs := by
  have some : (2 * v + 1).natAbs ≠ 0 := by omega
  have whole : unitOf v.natAbs ∣ v.natAbs := by
    rw [← nearestNat_eq_iff, ← natAbs_nearestInt, float]
  have long : 53 ≤ v.natAbs.log2 := (Nat.le_log2 (by omega)).2 (by omega)
  have high : v.natAbs < 2 ^ (v.natAbs.log2 + 1) := Nat.lt_log2_self
  have longest : (2 * v + 1).natAbs.log2 < v.natAbs.log2 + 2 := by
    rw [Nat.log2_lt some, show v.natAbs.log2 + 2 = v.natAbs.log2 + 1 + 1 from rfl, Nat.pow_succ]
    omega
  have longer : 54 ≤ (2 * v + 1).natAbs.log2 := (Nat.le_log2 some).2 far
  refine ⟨Nat.pow_dvd_pow (m := 2) 2 (by omega), Nat.dvd_trans ?_ (Nat.mul_dvd_mul_left 2 whole)⟩
  rw [unitOf, unitOf, Nat.mul_comm, ← Nat.pow_succ]
  exact Nat.pow_dvd_pow 2 (by omega)

/-- Halfway between two floats, the even one is taken. -/
theorem nearestNat_halfway (large : 2 ^ 53 ≤ (2 * v + 1).natAbs) (float : nearestInt v = v) :
    nearestNat (2 * v + 1).natAbs = 2 * (v + v % 2).natAbs := by
  obtain short | far := Nat.lt_or_ge (2 * v + 1).natAbs (2 ^ 54)
  · have log : (2 * v + 1).natAbs.log2 = 53 := (Nat.log2_eq_iff (by omega)).2 ⟨large, short⟩
    have odd : (2 * v + 1).natAbs % 2 = 1 := by omega
    have half : roundHalfEven (2 * v + 1).natAbs 2 =
        (2 * v + 1).natAbs / 2 + (2 * v + 1).natAbs / 2 % 2 := by
      unfold roundHalfEven
      dsimp only
      rw [odd, if_neg (by decide), if_neg (by decide)]
    rw [nearestNat, unitOf, log, show 2 ^ (53 - 52) = 2 from rfl, half]
    omega
  · obtain ⟨four, double⟩ := unitOf_dvd_double far float
    have even := Nat.dvd_trans four double
    have wide := Nat.le_of_dvd (unitOf_pos _) four
    obtain ⟨m, same⟩ := double
    rw [Nat.mul_comm (unitOf _)] at same
    have rounded : roundHalfEven (2 * v + 1).natAbs (unitOf (2 * v + 1).natAbs) = m :=
      roundHalfEven_next wide (by omega)
    rw [nearestNat, rounded, ← same]
    omega

theorem addHalf_finite {negative : Bool} {m : ℕ} {q : ℤ}
    (is : (Number.finite negative m q).Is v) : ∃ a : ℕ,
      (Number.finite negative m q).addHalf =
        binary64.nearest (decide (v < 0)) ((2 * v + 1).natAbs * 2 ^ a) (2 ^ (a + 1)) := by
  have below : min q (-1) ≤ -1 := min_le_right q (-1)
  have units := Number.signedUnits_mul negative m (min_le_left q (-1))
  obtain ⟨a, exponent⟩ : ∃ a : ℕ, min q (-1) = -1 - a := ⟨(-1 - min q (-1)).toNat, by omega⟩
  rw [show Number.value negative m q = v from is, exponent] at units
  have half : (-1 - (-1 - (a : ℤ))).toNat = a := by omega
  have unit : (-(-1 - (a : ℤ))).toNat = a + 1 := by omega
  have total : Number.signedUnits negative m q (-1 - a) + (2 ^ a : ℕ) =
      (2 * v + 1) * (2 ^ a : ℕ) := by
    have scale : (2 : ℚ) ^ (-1 - (a : ℤ)) * (2 ^ a * 2) = 1 := by
      rw [zpow_sub₀ (by norm_num), zpow_natCast]
      field_simp
    have cast : (Number.signedUnits negative m q (-1 - a) : ℚ) = v * (2 ^ a * 2) := by
      rw [← units, mul_assoc, scale, mul_one]
    have cast' : ((Number.signedUnits negative m q (-1 - a) + (2 ^ a : ℕ) : ℤ) : ℚ) =
        ((2 * v + 1) * (2 ^ a : ℕ) : ℤ) := by
      push_cast
      rw [cast]
      ring
    exact_mod_cast cast'
  refine ⟨a, ?_⟩
  have positive : (0 : ℤ) < (2 ^ a : ℕ) := by exact_mod_cast Nat.two_pow_pos a
  have sign : (2 * v + 1) * ((2 ^ a : ℕ) : ℤ) < 0 ↔ v < 0 := by
    rw [mul_neg_iff]
    omega
  have magnitude : ((2 * v + 1) * ((2 ^ a : ℕ) : ℤ)).natAbs = (2 * v + 1).natAbs * 2 ^ a := by
    rw [Int.natAbs_mul, Int.natAbs_natCast]
  unfold Number.addHalf
  dsimp only
  rw [exponent, half, unit]
  simp only [Nat.pow_eq, total, magnitude, sign]

/-- The sign in front of an absolute value gives back what it is of. -/
theorem signed_abs {r : ℚ} (below : v < 0 → r ≤ 0) (above : 0 ≤ v → 0 ≤ r) :
    (if decide (v < 0) = true then -|r| else |r|) = r := by
  by_cases negative : v < 0
  · rw [if_pos (decide_eq_true negative), abs_of_nonpos (below negative), neg_neg]
  · rw [if_neg (by simpa using negative), abs_of_nonneg (above (not_lt.1 negative))]

/-- Half of what is nearest to the double of the sum with one half. -/
theorem floor_half (float : nearestInt v = v) :
    ⌊if decide (v < 0) = true then -((nearestNat (2 * v + 1).natAbs : ℚ) * (1 / 2))
      else (nearestNat (2 * v + 1).natAbs : ℚ) * (1 / 2)⌋ = halfUp v := by
  have size (w : ℤ) (n : ℕ) (same : n = w.natAbs) :
      (n : ℚ) * (1 / 2) = |(w : ℚ) / 2| := by
    rw [same, Nat.cast_natAbs, Int.cast_abs, abs_div, abs_two, mul_one_div]
  unfold halfUp
  by_cases small : (2 * v + 1).natAbs < 2 ^ 53
  · have value : (((2 * v + 1 : ℤ)) : ℚ) / 2 = v + 1 / 2 := by
      push_cast
      ring
    rw [if_pos small, size (2 * v + 1) _ (nearestNat_of_le (Nat.le_of_lt small)), signed_abs,
      value, Int.floor_intCast_add]
    · norm_num
    · intro below
      have bound : ((2 * v + 1 : ℤ) : ℚ) ≤ 0 := by exact_mod_cast (by omega : 2 * v + 1 ≤ 0)
      linarith
    · intro above
      have bound : (0 : ℚ) ≤ ((2 * v + 1 : ℤ) : ℚ) := by exact_mod_cast (by omega : 0 ≤ 2 * v + 1)
      linarith
  · have value : ((2 * (v + v % 2) : ℤ) : ℚ) / 2 = ((v + v % 2 : ℤ) : ℚ) := by
      push_cast
      ring
    have even : nearestNat (2 * v + 1).natAbs = (2 * (v + v % 2)).natAbs := by
      rw [nearestNat_halfway (Nat.not_lt.1 small) float, Int.natAbs_mul]
      rfl
    rw [if_neg small, size _ _ even, value, signed_abs, Int.floor_intCast]
    · intro below
      exact_mod_cast (by omega : v + v % 2 ≤ 0)
    · intro above
      exact_mod_cast (by omega : 0 ≤ v + v % 2)

/-- The floor of the sum with one half, unless the sum is beyond all floats. -/
theorem floor_addHalf (is : x.Is v) (float : nearestInt v = v) :
    (∃ negative m q, x.addHalf = .finite negative m q ∧ Number.floor negative m q = halfUp v) ∨
      x.addHalf = .infinite (decide (v < 0)) ∧ 2 ^ 199 ≤ v.natAbs := by
  match x, is with
  | .finite s m q, is =>
  obtain ⟨a, sum⟩ := addHalf_finite is
  have some : (2 * v + 1).natAbs ≠ 0 := by omega
  have least : binary64.leastExponent = -1074 := by decide
  rw [sum]
  obtain ⟨m, q, nearest, value⟩ | ⟨nearest, far⟩ :=
    nearest_dyadic (a := a) (j := a + 1) (decide (v < 0)) some (by rw [least]; push_cast; omega)
  · refine .inl ⟨_, m, q, nearest, ?_⟩
    have half : (2 : ℚ) ^ ((a : ℤ) - (a + 1 : ℕ)) = 1 / 2 := by
      rw [show (a : ℤ) - (a + 1 : ℕ) = -1 by push_cast; ring]
      norm_num
    rw [half] at value
    rw [Number.floor_eq, Number.value_eq value]
    exact floor_half float
  · refine .inr ⟨nearest, ?_⟩
    have power : 2 ^ (200 + (a + 1)) = 2 ^ 2 * 2 ^ 199 * 2 ^ a := by
      rw [show 200 + (a + 1) = 2 + 199 + a by omega, Nat.pow_add, Nat.pow_add]
    rw [power] at far
    have far := Nat.le_of_mul_le_mul_right far (Nat.two_pow_pos a)
    generalize 2 ^ 199 = bound at *
    omega

end GroupedTables.Floating
