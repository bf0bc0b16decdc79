import GroupedTables.Proofs.Decimal.Storing

/-!
# Stored decimals sort as bytes

Compared byte by byte from the front, stored decimals of one precision and scale come out as their
values do. Groups take as many bytes whatever their digits, so the first group to differ decides.
Inverting every byte turns the order around, and the top bit, which the digits leave free, tells
what is below zero from what is not.
-/

namespace GroupedTables.Decimal

variable {n m width : ℕ} {b c : UInt8} {x y front front' back back' : List UInt8} {groups : List ℕ}

theorem compare_toNat (b c : UInt8) : compare b c = compare b.toNat c.toNat := by
  show compareOfLessAndEq b c = compareOfLessAndEq b.toNat c.toNat
  simp only [compareOfLessAndEq, UInt8.lt_iff_toNat_lt, UInt8.toNat_inj]

/-- What stands behind decides only between equals. -/
theorem compareLex_append (same : front.length = front'.length) :
    List.compareLex compare (front ++ back) (front' ++ back') =
      (List.compareLex compare front front').then (List.compareLex compare back back') := by
  induction front generalizing front' with
  | nil =>
    obtain rfl := List.length_eq_zero_iff.1 same.symm
    rfl
  | cons b front ih =>
    obtain _ | ⟨c, front'⟩ := front'
    · cases same
    · simp only [List.cons_append, List.compareLex_cons_cons, ih (Nat.succ.inj same),
        Ordering.then_assoc]

/-- A number is compared by what it holds of a power first, and then by the rest. -/
theorem compare_eq_div_mod (m n power : ℕ) :
    compare m n = (compare (m / power) (n / power)).then (compare (m % power) (n % power)) := by
  have cut := Nat.div_add_mod m power
  have cut' := Nat.div_add_mod n power
  obtain less | same | more := Nat.lt_trichotomy (m / power) (n / power)
  · have first : m < n := by
      by_contra large
      exact absurd (Nat.div_le_div_right (Nat.not_lt.1 large)) (Nat.not_le.2 less)
    rw [Nat.compare_eq_lt.2 less, Nat.compare_eq_lt.2 first]
    rfl
  · have shift : compare (power * (n / power) + m % power) (power * (n / power) + n % power) =
        compare (m % power) (n % power) := by
      simp only [Nat.compare_eq_ite_lt, Nat.add_lt_add_iff_left]
    rw [same] at cut
    rw [cut, cut'] at shift
    rw [Nat.compare_eq_eq.2 same, shift]
    rfl
  · have first : n < m := by
      by_contra large
      exact absurd (Nat.div_le_div_right (Nat.not_lt.1 large)) (Nat.not_le.2 more)
    rw [Nat.compare_eq_gt.2 more, Nat.compare_eq_gt.2 first]
    rfl

theorem compareLex_bigEndian (m n width : ℕ) :
    List.compareLex compare (bigEndian m width) (bigEndian n width) =
      compare (m % 256 ^ width) (n % 256 ^ width) := by
  induction width with
  | zero => 
    simp only [Nat.pow_zero, Nat.mod_one]
    rfl
  | succ width ih =>
    have byte (n : ℕ) : (UInt8.ofNat (n / Nat.pow 256 width % 256)).toNat =
        n % 256 ^ (width + 1) / 256 ^ width := by
      rw [Nat.pow_succ, Nat.mod_mul_right_div_self, UInt8.toNat_ofNat']
      exact Nat.mod_eq_of_lt (Nat.mod_lt _ (by decide))
    have tail (n : ℕ) : n % 256 ^ width = n % 256 ^ (width + 1) % 256 ^ width := by
      rw [Nat.mod_mod_of_dvd _ (Nat.pow_dvd_pow 256 (Nat.le_succ width))]
    rw [compare_eq_div_mod _ _ (256 ^ width), ← byte, ← byte, ← tail, ← tail, ← ih, ← compare_toNat]
    exact List.compareLex_cons_cons

/-- Magnitudes with room in their groups are compared as their bytes are. -/
theorem compareLex_magnitudeBytes (grouping : Grouping groups) (small : m < 10 ^ groups.sum)
    (small' : n < 10 ^ groups.sum) :
    List.compareLex compare (magnitudeBytes m groups) (magnitudeBytes n groups) = compare m n := by
  induction groups generalizing m n with
  | nil =>
    rw [List.sum_nil, Nat.pow_zero, Nat.lt_one_iff] at small small'
    rw [small, small']
    rfl
  | cons g groups ih =>
    obtain ⟨some, most⟩ := grouping g (.head _)
    have room := pow_le_groupBytes some most
    obtain ⟨first, others⟩ := split_lt small
    obtain ⟨first', others'⟩ := split_lt small'
    have rest := ih (fun g inside => grouping g (.tail _ inside)) others others'
    have leading := compareLex_bigEndian (m / 10 ^ groups.sum) (n / 10 ^ groups.sum) (groupBytes g)
    rw [Nat.mod_eq_of_lt (Nat.lt_of_lt_of_le first room),
      Nat.mod_eq_of_lt (Nat.lt_of_lt_of_le first' room)] at leading
    rw [magnitudeBytes_cons, magnitudeBytes_cons, compareLex_append (by simp), leading, rest]
    exact (compare_eq_div_mod m n _).symm

theorem compare_not (b c : UInt8) : compare (~~~b) (~~~c) = (compare b c).swap := by
  have small := b.toNat_lt
  have small' := c.toNat_lt
  have size : UInt8.size = 256 := rfl
  rw [compare_toNat, compare_toNat, Nat.compare_swap, UInt8.toNat_not, UInt8.toNat_not, size]
  simp only [Nat.compare_eq_ite_lt]
  exact if_congr (by omega) rfl (if_congr (by omega) rfl rfl)

/-- Inverted bytes are the other way around. -/
theorem compareLex_invertBytes (same : x.length = y.length) :
    List.compareLex compare (invertBytes x) (invertBytes y) =
      (List.compareLex compare x y).swap := by
  induction x generalizing y with
  | nil =>
    obtain rfl := List.length_eq_zero_iff.1 same.symm
    rfl
  | cons b x ih =>
    obtain _ | ⟨c, y⟩ := y
    · cases same
    · rw [List.compareLex_cons_cons, Ordering.swap_then, ← compare_not, ← ih (Nat.succ.inj same)]
      exact List.compareLex_cons_cons

theorem compare_xor (free : b < 0x80) (free' : c < 0x80) :
    compare (b ^^^ 0x80) (c ^^^ 0x80) = compare b c := by
  have raised (b : UInt8) (free : b < 0x80) : (b ^^^ 0x80).toNat = 128 + b.toNat := by
    obtain ⟨⟨⟨n, small⟩⟩⟩ := b
    revert n
    decide +kernel
  rw [compare_toNat, compare_toNat, raised b free, raised c free']
  simp only [Nat.compare_eq_ite_lt, Nat.add_lt_add_iff_left]

@[simp] theorem length_flipTopBit (x : List UInt8) : (flipTopBit x).length = x.length := by
  cases x <;> rfl

theorem compareLex_flipTopBit (same : x.length = y.length) (free : ∀ b ∈ x.head?, b < 0x80)
    (free' : ∀ b ∈ y.head?, b < 0x80) :
    List.compareLex compare (flipTopBit x) (flipTopBit y) = List.compareLex compare x y := by
  obtain _ | ⟨b, x⟩ := x
  · obtain rfl := List.length_eq_zero_iff.1 same.symm
    rfl
  · obtain _ | ⟨c, y⟩ := y
    · cases same
    · rw [List.compareLex_cons_cons, ← compare_xor (free b rfl) (free' c rfl)]
      exact List.compareLex_cons_cons

/-- Bytes below zero come before bytes that are not. -/
theorem compareLex_of_isNegative (some : y ≠ []) (negative : isNegative x = true)
    (positive : isNegative y = false) : List.compareLex compare x y = .lt := by
  obtain _ | ⟨b, x⟩ := x
  · cases negative
  · obtain _ | ⟨c, y⟩ := y
    · exact absurd rfl some
    · have below : b < 0x80 := of_decide_eq_true negative
      have above : ¬ c < 0x80 := of_decide_eq_false positive
      have less : compare b c = .lt := by
        rw [UInt8.lt_iff_toNat_lt] at below above
        rw [compare_toNat, Nat.compare_eq_lt]
        omega
      rw [List.compareLex_cons_cons, less]
      rfl

/-- The bytes of units with room in their groups, sign and all. -/
def signedBytes (units : ℤ) (groups : List ℕ) : List UInt8 :=
  folded (decide (units < 0)) (magnitudeBytes units.natAbs groups)

variable {u v : ℤ}

theorem isNegative_signedBytes (grouping : Grouping groups) (small : u.natAbs < 10 ^ groups.sum) :
    isNegative (signedBytes u groups) = decide (u < 0) := by
  apply isNegative_folded (free_magnitudeBytes grouping small)
  intro below
  exact magnitudeBytes_ne_nil grouping small (Int.natAbs_ne_zero.2 (of_decide_eq_true below).ne)

theorem compareLex_signedBytes_of_neg (grouping : Grouping groups)
    (small : u.natAbs < 10 ^ groups.sum) (small' : v.natAbs < 10 ^ groups.sum) (below : u < 0)
    (above : ¬ v < 0) :
    List.compareLex compare (signedBytes u groups) (signedBytes v groups) = .lt := by
  apply compareLex_of_isNegative
  · have some := List.length_pos_iff.2
      (magnitudeBytes_ne_nil grouping small (Int.natAbs_ne_zero.2 below.ne))
    rw [length_magnitudeBytes] at some
    rwa [← List.length_pos_iff, signedBytes, length_folded, length_magnitudeBytes]
  · rw [isNegative_signedBytes grouping small]
    exact decide_eq_true below
  · rw [isNegative_signedBytes grouping small']
    exact decide_eq_false above

/-- Units with room in their groups are compared as their bytes are. -/
theorem compareLex_signedBytes (grouping : Grouping groups)
    (small : u.natAbs < 10 ^ groups.sum) (small' : v.natAbs < 10 ^ groups.sum) :
    List.compareLex compare (signedBytes u groups) (signedBytes v groups) = compare u v := by
  have free := free_magnitudeBytes grouping small
  have free' := free_magnitudeBytes grouping small'
  have same : (magnitudeBytes u.natAbs groups).length =
      (magnitudeBytes v.natAbs groups).length := by
    rw [length_magnitudeBytes, length_magnitudeBytes]
  have magnitudes := compareLex_magnitudeBytes grouping small small'
  by_cases below : u < 0 <;> by_cases below' : v < 0
  · rw [signedBytes, signedBytes, decide_eq_true below, decide_eq_true below', folded, folded,
      if_pos rfl, if_pos rfl, flipTopBit_invertBytes, flipTopBit_invertBytes,
      compareLex_invertBytes (by simp), compareLex_flipTopBit same free free',
      magnitudes, Nat.compare_swap]
    simp only [Nat.compare_eq_ite_lt, Int.compare_eq_ite_lt]
    exact if_congr (by omega) rfl (if_congr (by omega) rfl rfl)
  · rw [compareLex_signedBytes_of_neg grouping small small' below below']
    exact (Int.compare_eq_lt.2 (by omega)).symm
  · have turned : List.compareLex compare (signedBytes u groups) (signedBytes v groups) =
        (List.compareLex compare (signedBytes v groups) (signedBytes u groups)).swap :=
      Std.OrientedCmp.eq_swap
    rw [turned, compareLex_signedBytes_of_neg grouping small' small below' below]
    exact (Int.compare_eq_gt.2 (by omega)).symm
  · rw [signedBytes, signedBytes, decide_eq_false below, decide_eq_false below']
    refine (compareLex_flipTopBit same free free').trans (magnitudes.trans ?_)
    simp only [Nat.compare_eq_ite_lt, Int.compare_eq_ite_lt]
    exact if_congr (by omega) rfl (if_congr (by omega) rfl rfl)

theorem compare_rounded (a b : Decimal) (places : ℕ) :
    compare (a.rounded places) (b.rounded places) =
      compare (a.roundedUnits places) (b.roundedUnits places) := by
  have scaled : StrictMono fun units : ℤ => (units / 10 ^ places : ℚ) := by
    intro u v less
    have less : (u : ℚ) < v := Int.cast_lt.2 less
    show (u / 10 ^ places : ℚ) < v / 10 ^ places
    gcongr
  rw [rounded_eq, rounded_eq, ← cmp_eq_compare, ← cmp_eq_compare]
  exact scaled.cmp_map_eq _ _

/-- Stored decimals of one precision and scale are compared byte by byte as the values they were
rounded to, and are the same bytes just if those are equal. -/
theorem compareLex_of_encode {a b : Decimal} {precision scale : ℕ}
    (encoded : a.encode precision scale = .ok x) (encoded' : b.encode precision scale = .ok y) :
    List.compareLex compare x y = compare (a.rounded scale) (b.rounded scale) ∧
      (x = y ↔ a.rounded scale = b.rounded scale) := by
  obtain ⟨small, rfl⟩ := encode_eq_ok encoded
  obtain ⟨small', rfl⟩ := encode_eq_ok encoded'
  have order := (compareLex_signedBytes (grouping_allGroups precision scale) small small').trans
    (compare_rounded a b scale).symm
  refine ⟨order, ?_⟩
  exact (Std.LawfulEqCmp.compare_eq_iff_eq.symm.trans (by rw [← order]; rfl)).trans
    compare_eq_iff_eq

/-- Less than half a unit below zero is stored as zero is, and anything further below comes
before it. -/
theorem compareLex_of_encode_belowZero :
    (⟨-4, 3⟩ : Decimal).encode 4 2 = .ok [0x80, 0x00] ∧
    (⟨0, 0⟩ : Decimal).encode 4 2 = .ok [0x80, 0x00] ∧
    (⟨-5, 3⟩ : Decimal).encode 4 2 = .ok [0x7f, 0xfe] ∧
    rounded ⟨-4, 3⟩ 2 = rounded ⟨0, 0⟩ 2 ∧
    compare (rounded ⟨-5, 3⟩ 2) (rounded ⟨0, 0⟩ 2) = .lt := by
  have above : (⟨-4, 3⟩ : Decimal).encode 4 2 = .ok [0x80, 0x00] := by decide +kernel
  have zero : (⟨0, 0⟩ : Decimal).encode 4 2 = .ok [0x80, 0x00] := by decide +kernel
  have below : (⟨-5, 3⟩ : Decimal).encode 4 2 = .ok [0x7f, 0xfe] := by decide +kernel
  exact ⟨above, zero, below, (compareLex_of_encode above zero).2.1 rfl,
    (compareLex_of_encode below zero).1.symm.trans (by decide +kernel)⟩

end GroupedTables.Decimal
