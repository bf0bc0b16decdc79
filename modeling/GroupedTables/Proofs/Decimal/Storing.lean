import GroupedTables.Fault.Basic
import GroupedTables.Proofs.Decimal.Packed
import GroupedTables.Proofs.Decimal.Rounding
import Mathlib.Data.List.TakeWhile

/-!
# Which decimals can be stored

A decimal is stored just if it has room once it is rounded to the scale. A value far too large is
refused without rounding it, which makes no difference, since rounding cannot bring it back. What
is stored is read as the rounded value, and written out as the canonical text of it.
-/

namespace GroupedTables.Decimal

open Text

/-- The value of a decimal rounded to some places, the half of a unit away from zero. -/
def rounded (d : Decimal) (places : ℕ) : ℚ := halfUp d.value places / 10 ^ places

variable {d : Decimal} {n m count whole places precision scale : ℕ} {bytes : List UInt8}

theorem rounded_eq (d : Decimal) (places : ℕ) :
    d.rounded places = d.roundedUnits places / 10 ^ places := by
  rw [rounded, roundedUnits_eq]

theorem value_of_scaled (units : ℤ) (places : ℕ) :
    value ⟨units, places⟩ = units / 10 ^ places := by
  rw [value, zpow_neg, zpow_natCast, ← div_eq_mul_inv]

/-- Room for a rounded value is room for its units. -/
theorem abs_rounded_lt_iff (d : Decimal) (whole places : ℕ) :
    |d.rounded places| < 10 ^ whole ↔ (d.roundedUnits places).natAbs < 10 ^ (whole + places) := by
  rw [rounded_eq, abs_div, abs_of_pos (show (0 : ℚ) < 10 ^ places by positivity),
    div_lt_iff₀ (by positivity), ← pow_add, ← Int.cast_abs, Int.abs_eq_natAbs]
  norm_cast

/-- A magnitude with more digits than are dropped keeps the others. -/
theorem le_dropDigits (large : 10 ^ (n + count) ≤ m) : 10 ^ n ≤ dropDigits m count := by
  rw [dropDigits_eq, Nat.le_div_iff_mul_le (by positivity), Nat.mul_left_comm, ← Nat.pow_add]
  exact Nat.le_trans (Nat.mul_le_mul_left 2 large) (Nat.le_add_right ..)

theorem natAbs_roundedUnits (nonzero : d.units ≠ 0) :
    (d.roundedUnits places).natAbs =
      if d.scale ≤ places then d.units.natAbs * 10 ^ (places - d.scale).toNat
      else dropDigits d.units.natAbs (d.scale - places).toNat := by
  rw [roundedUnits, if_neg nonzero]
  split
  · rw [Int.natAbs_mul]
    rfl
  · rw [Int.natAbs_mul, Int.natAbs_sign_of_ne_zero nonzero, Nat.one_mul, Int.natAbs_natCast]

/-- A decimal with its leading digit too far in front of the point is as large when rounded. -/
theorem le_natAbs_roundedUnits (nonzero : d.units ≠ 0) (far : (whole : ℤ) < d.magnitude) :
    10 ^ (whole + places) ≤ (d.roundedUnits places).natAbs := by
  unfold magnitude digitCount at far
  have some : 1 ≤ d.units.natAbs := Int.natAbs_pos.2 nonzero
  have leading (k : ℕ) (short : k < (digits d.units.natAbs).length) : 10 ^ k ≤ d.units.natAbs := by
    cases k with
    | zero => exact some
    | succ k =>
      by_contra small
      have fits := (Nat.length_toDigits_le_iff (by decide) (Nat.succ_pos k)).2 (Nat.not_le.1 small)
      exact absurd short (Nat.not_lt.2 fits)
  rw [natAbs_roundedUnits nonzero]
  split
  case isTrue within =>
    obtain ⟨more, same⟩ := Int.eq_ofNat_of_zero_le (Int.sub_nonneg_of_le within)
    rw [same, Int.toNat_natCast]
    by_cases filled : whole + places ≤ more
    · calc 10 ^ (whole + places) ≤ 1 * 10 ^ more := by
            rw [Nat.one_mul]
            exact Nat.pow_le_pow_right (by decide) filled
        _ ≤ _ := Nat.mul_le_mul_right _ some
    · calc 10 ^ (whole + places) = 10 ^ (whole + places - more) * 10 ^ more := by
            rw [← Nat.pow_add, Nat.sub_add_cancel (by omega)]
        _ ≤ _ := Nat.mul_le_mul_right _ (leading _ (by omega))
  case isFalse beyond => exact le_dropDigits (leading _ (by omega))

theorem encode_eq_error (large : 10 ^ (integralDigits precision scale + scale) ≤
    (d.roundedUnits scale).natAbs) :
    d.encode precision scale = .error (.decimalOverflow d.text precision scale) := by
  unfold encode
  dsimp only
  split
  · rfl
  · exact if_pos large

theorem exists_encode_eq_ok (small : (d.roundedUnits scale).natAbs <
    10 ^ (integralDigits precision scale + scale)) :
    ∃ bytes, d.encode precision scale = .ok bytes := by
  unfold encode
  dsimp only
  split
  case isTrue far => exact absurd (le_natAbs_roundedUnits far.1 far.2) (Nat.not_le.2 small)
  case isFalse => exact ⟨_, if_neg (Nat.not_le.2 small)⟩

/-- Units in full: a minus sign if they are below zero, the digits before the point, at least one,
and as many behind it as there are places. -/
def plainChars (units : ℤ) (places : ℕ) : List Char :=
  let n := units.natAbs
  let sign := if units < 0 then ['-'] else []
  let point := if places = 0 then [] else '.' :: zeroFilled places (n % Nat.pow 10 places)
  sign ++ digits (n / Nat.pow 10 places) ++ point

/-- Digits that are all zero stand for nothing. -/
theorem Digits.units_of_isZero {ds : Digits} (zero : ds.isZero = true) : ds.decimal.units = 0 := by
  rw [isZero, Bool.and_eq_true, List.isEmpty_iff, List.all_eq_true] at zero
  have none : digitsValue (ds.integral ++ ds.fraction) = 0 := by
    rw [zero.1, List.nil_append, ← digitsValue_dropWhile, List.dropWhile_eq_nil_iff.2 zero.2]
    rfl
  rw [decimal, none]
  split <;> rfl

theorem Digits.chars_ofUnits (units : ℤ) (places : ℕ) :
    (ofUnits units places).chars = plainChars units places := by
  have sign : (if ((ofUnits units places).negative && !(ofUnits units places).isZero) = true
      then ['-'] else []) = if units < 0 then ['-'] else [] := by
    by_cases below : units < 0
    · have nonzero : (ofUnits units places).isZero = false := by
        by_contra zero
        have none := units_of_isZero (Bool.not_eq_false _ ▸ zero)
        rw [decimal_ofUnits] at none
        exact below.ne none
      have negative : (ofUnits units places).negative = true := decide_eq_true below
      rw [negative, nonzero, if_pos below]
      rfl
    · have negative : (ofUnits units places).negative = false := decide_eq_false below
      rw [negative, if_neg below]
      rfl
  have whole (n : ℕ) : (if (if n = 0 then [] else digits n).isEmpty = true then ['0']
      else if n = 0 then [] else digits n) = digits n := by
    by_cases zero : n = 0
    · rw [zero]
      rfl
    · rw [if_neg zero, if_neg]
      rw [List.isEmpty_iff]
      exact Nat.toDigits_ne_nil
  have point (n : ℕ) (small : n < 10 ^ places) :
      (if (if places = 0 then [] else zeroFilled places n).isEmpty = true then []
      else '.' :: if places = 0 then [] else zeroFilled places n) =
        if places = 0 then [] else '.' :: zeroFilled places n := by
    by_cases none : places = 0
    · rw [if_pos none, if_pos none]
      rfl
    · rw [if_neg none, if_neg none, if_neg]
      rw [List.isEmpty_iff, ← List.length_eq_zero_iff,
        length_zeroFilled (Nat.pos_of_ne_zero none) small]
      exact none
  rw [chars, sign, plainChars]
  exact congrArg₂ (_ ++ · ++ ·) (whole _) (point _ (Nat.mod_lt _ (Nat.pow_pos (by decide))))

/-- The text of an encoded decimal is that of what it was rounded to. -/
theorem decodeText_of_encode (encoded : d.encode precision scale = .ok bytes) :
    decodeText bytes precision scale =
      .ok (String.ofList (plainChars (d.roundedUnits scale) scale)) := by
  rw [decodeText, readDigits_of_encode encoded, Except.map, Digits.chars_ofUnits]

/-- A decimal that has room once it is rounded is stored in the bytes of its precision and scale,
and read back as what it was rounded to. Any other decimal is refused. -/
theorem stored_or_refused (d : Decimal) (precision scale : ℕ) :
    (|d.rounded scale| < 10 ^ (precision - scale) ∧
      ∃ bytes, d.encode precision scale = .ok bytes ∧
        bytes.length = packedSize precision scale ∧
        (∃ found, decode bytes precision scale = .ok found ∧ found.value = d.rounded scale) ∧
        decodeText bytes precision scale =
          .ok (String.ofList (plainChars (halfUp d.value scale) scale))) ∨
    (10 ^ (precision - scale) ≤ |d.rounded scale| ∧
      (d.encode precision scale).mapError Fault.invalidRow =
        .error (.invalidRow (.decimalOverflow d.text precision scale))) := by
  by_cases fits : |d.rounded scale| < 10 ^ (precision - scale)
  case pos =>
    obtain ⟨bytes, encoded⟩ :=
      exists_encode_eq_ok ((abs_rounded_lt_iff d (precision - scale) scale).1 fits)
    refine .inl ⟨fits, bytes, encoded, length_of_encode encoded,
      ⟨_, decode_of_encode encoded, ?_⟩, ?_⟩
    · rw [value_of_scaled, rounded_eq]
    · rw [decodeText_of_encode encoded, roundedUnits_eq]
  case neg =>
    have large := mt (abs_rounded_lt_iff d (precision - scale) scale).2 fits
    refine .inr ⟨not_lt.1 fits, ?_⟩
    rw [encode_eq_error (Nat.not_lt.1 large)]
    rfl

example : (⟨-1005, 3⟩ : Decimal).encode 10 2 = .ok [0x7f, 0xff, 0xff, 0xfe, 0xfe] ∧
    decodeText [0x7f, 0xff, 0xff, 0xfe, 0xfe] 10 2 = .ok "-1.01" := by decide +kernel

end GroupedTables.Decimal
