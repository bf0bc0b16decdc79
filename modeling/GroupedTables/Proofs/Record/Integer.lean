import GroupedTables.Record.Integer
import Mathlib.Data.Int.ModEq
import Mathlib.Tactic.Ring

/-!
# Integers in records read back

Bytes and the number they stand for determine each other once the number of bytes is known.
What an integer loses when it is written is what lies beyond its low bytes, so reading gives
the integer modulo a power of two: the one that is not negative, or the one nearest to zero.
-/

namespace GroupedTables.Record

variable {bytes : List UInt8} {width offset : Nat}

theorem ofLittleEndian_lt (bytes : List UInt8) : ofLittleEndian bytes < 256 ^ bytes.length := by
  induction bytes with
  | nil => simp
  | cons b rest ih =>
    have small := b.toNat_lt
    rw [ofLittleEndian_cons, List.length_cons, Nat.pow_succ]
    omega

/-- Writing keeps the low bytes of an integer. -/
theorem ofLittleEndian_littleEndian (n : Int) (width : Nat) :
    (ofLittleEndian (littleEndian n width) : Int) = n % 256 ^ width := by
  induction width generalizing n with
  | zero => simp [littleEndian]
  | succ width ih =>
    have small : (n % 256).toNat < 256 := by omega
    have low : (UInt8.ofNat (n % 256).toNat).toNat = (n % 256).toNat := by
      rw [UInt8.toNat_ofNat', Nat.mod_eq_of_lt small]
    have split : n % 256 ^ (width + 1) = n % 256 + 256 * (n / 256 % 256 ^ width) := by
      rw [Int.pow_succ', Int.emod_def, Int.emod_def n 256, Int.emod_def (n / 256),
        Int.ediv_ediv_of_nonneg (by decide)]
      ring
    rw [littleEndian, ofLittleEndian_cons, low, Int.natCast_add, Int.natCast_mul, ih, split]
    omega

/-- Reading loses nothing, so the bytes can be written again. -/
theorem littleEndian_ofLittleEndian (bytes : List UInt8) :
    littleEndian (ofLittleEndian bytes) bytes.length = bytes := by
  induction bytes with
  | nil => rfl
  | cons b rest ih =>
    have small := b.toNat_lt
    have low : (((b.toNat + 256 * ofLittleEndian rest : Nat) : Int) % 256).toNat = b.toNat := by
      omega
    have high : ((b.toNat + 256 * ofLittleEndian rest : Nat) : Int) / 256 =
        ofLittleEndian rest := by omega
    rw [ofLittleEndian_cons, List.length_cons, littleEndian, low, high, ih, UInt8.ofNat_toNat]

theorem ofLittleEndian_littleEndian_of_lt {n : Nat} (small : n < 256 ^ width) :
    ofLittleEndian (littleEndian n width) = n := by
  have same := ofLittleEndian_littleEndian n width
  rw [Int.emod_eq_of_lt (by omega) (by exact_mod_cast small)] at same
  exact_mod_cast same

theorem littleEndian_ne_nil (n : Int) (least : 1 ≤ width) : littleEndian n width ≠ [] := by
  rw [← List.length_pos_iff, length_littleEndian]
  exact least

/-- Only the low bytes of an integer are written. -/
theorem littleEndian_emod (n : Int) (width : Nat) :
    littleEndian (n % 256 ^ width) width = littleEndian n width := by
  have again := littleEndian_ofLittleEndian (littleEndian n width)
  rwa [ofLittleEndian_littleEndian, length_littleEndian] at again

/-- The first integer beyond some bytes. -/
theorem bound_eq (width : Nat) : (256 : Int) ^ width = 2 ^ (8 * width) := by
  rw [Int.pow_mul]
  rfl

/-- The integer lies between the least and the greatest one that so many bytes hold in two's
complement. -/
def FitsBytes (width : Nat) (n : Int) : Prop :=
  -2 ^ (8 * width - 1) ≤ n ∧ n ≤ 2 ^ (8 * width - 1) - 1

instance (width : Nat) (n : Int) : Decidable (FitsBytes width n) :=
  inferInstanceAs (Decidable (_ ∧ _))

/-- Of the integers that some bytes hold, one has the same low bytes as another integer. -/
theorem bmod_eq_iff_fits {v n : Int} (least : 1 ≤ width) :
    v.bmod (2 ^ (8 * width)) = n ↔ FitsBytes width n ∧ n ≡ v [ZMOD 2 ^ (8 * width)] := by
  obtain ⟨bits, same⟩ : ∃ bits, 8 * width = bits + 1 := ⟨8 * width - 1, by omega⟩
  have whole : ((2 ^ (bits + 1) : Nat) : Int) = 2 * 2 ^ bits := by
    rw [Nat.pow_succ']
    push_cast
    rfl
  rw [FitsBytes, same, Nat.add_sub_cancel, Int.bmod_eq_iff (Nat.two_pow_pos _), Int.modEq_comm,
    Int.modEq_iff_dvd, whole, Int.pow_succ', and_assoc]
  refine and_congr ?_ (and_congr ?_ Iff.rfl) <;> omega

/-- An integer that fits in some bytes is the one that they hold. -/
theorem bmod_eq_of_fits {n : Int} (least : 1 ≤ width) (fits : FitsBytes width n) :
    n.bmod (2 ^ (8 * width)) = n :=
  (bmod_eq_iff_fits least).2 ⟨fits, Int.ModEq.refl n⟩

/-- Integers with the same low bytes are written in the same way. -/
theorem littleEndian_congr {v n : Int} (same : n ≡ v [ZMOD 2 ^ (8 * width)]) :
    littleEndian n width = littleEndian v width := by
  rw [← littleEndian_emod n, ← littleEndian_emod v, bound_eq, same]

theorem length_span (inside : offset + width ≤ bytes.length) :
    (span bytes offset width).length = width := by
  rw [span, List.length_take, List.length_drop]
  omega

/-- What stands between other bytes is found there. -/
theorem span_append (before value after : List UInt8) :
    span (before ++ value ++ after) before.length value.length = value := by
  rw [span, List.append_assoc, List.drop_left, List.take_left]

/-- Bytes can be read in two parts. -/
theorem span_add {more : Nat} : span bytes offset (width + more) =
    span bytes offset width ++ span bytes (offset + width) more := by
  rw [span, List.take_add, List.drop_drop, span, span]

theorem unsignedAt_eq (least : 1 ≤ width) (most : width ≤ 8)
    (inside : offset + width ≤ bytes.length) :
    unsignedAt bytes offset width = .ok (ofLittleEndian (span bytes offset width)) := by
  rw [unsignedAt, if_neg (by omega), if_neg (by omega)]

theorem signedAt_eq (least : 1 ≤ width) (most : width ≤ 8)
    (inside : offset + width ≤ bytes.length) :
    signedAt bytes offset width =
      .ok (twosComplement width (ofLittleEndian (span bytes offset width))) := by
  rw [signedAt, unsignedAt_eq least most inside]
  rfl

/-- The low bytes of an integer in two's complement are the integer nearest to zero that has
the same low bytes. -/
theorem twosComplement_littleEndian (n : Int) (width : Nat) :
    twosComplement width (ofLittleEndian (littleEndian n width)) = n.bmod (2 ^ (8 * width)) := by
  have bound : (256 : Int) ^ width = (2 ^ (8 * width) : Nat) := by
    rw [bound_eq]
    push_cast
    rfl
  rw [twosComplement, ofLittleEndian_littleEndian, bound]
  exact Int.emod_bmod ..

theorem integerBytes_eq {n : Int} (most : width ≤ 8) :
    integerBytes n width = littleEndian n width := by
  rw [integerBytes, Nat.min_eq_left most]

end GroupedTables.Record
