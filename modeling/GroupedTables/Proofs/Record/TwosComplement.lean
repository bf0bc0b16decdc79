import GroupedTables.Proofs.Record.Guarded
import Mathlib.Data.Nat.Digits.Defs

/-!
# Bytes and the integers they hold

There are as many integers between the least and the greatest that some bytes hold in two's
complement as there are ways to fill the bytes, and none is lost on the way there or back: bytes
that are read can be written again as they were, and an integer that is written is read back if
it fits. One that does not fit is read as the integer that does and has the same low bytes. All of
it is what shifting words of eight bytes comes to, whatever the width.
-/

namespace GroupedTables.Record

open Machine

variable {bytes : List UInt8} {offset width : Nat}

/-- The value of bytes in base 256, the first of them last. -/
theorem ofLittleEndian_eq_ofDigits (bytes : List UInt8) :
    ofLittleEndian bytes = Nat.ofDigits 256 (bytes.map UInt8.toNat) := by
  induction bytes with
  | nil => rfl
  | cons b rest ih => rw [ofLittleEndian_cons, ih, List.map_cons, Nat.ofDigits_cons]

theorem take_littleEndian (n : Int) {fewer : Nat} (le : fewer ≤ width) :
    (littleEndian n width).take fewer = littleEndian n fewer := by
  induction width generalizing n fewer with
  | zero =>
    obtain rfl : fewer = 0 := Nat.le_zero.1 le
    rfl
  | succ width ih =>
    cases fewer with
    | zero => rfl
    | succ fewer =>
      rw [littleEndian, List.take_succ_cons, ih _ (Nat.le_of_succ_le_succ le), littleEndian]

namespace Guarded

/-- The lowest bytes of an integer, cut from all eight that it has. -/
def integerBytes (value : Int) (width : Nat) : Machine RowDefect (List UInt8) :=
  slice (littleEndian value 8) 0 (min width 8)

theorem gives_integerBytes (value : Int) (width : Nat) :
    (integerBytes value width).Gives (.ok (Record.integerBytes value width)) := by
  have inside : min width 8 ≤ (littleEndian value 8).length := by
    rw [length_littleEndian]
    exact Nat.min_le_right ..
  have cut : Gives (slice (littleEndian value 8) 0 (min width 8) : Machine RowDefect _)
      (.ok (span (littleEndian value 8) 0 (min width 8))) := gives_slice (Nat.zero_le _) inside
  rw [span, List.drop_zero, take_littleEndian value (Nat.min_le_right ..)] at cut
  exact cut

end Guarded

/-- What is read in some bytes is the one integer that they hold, so writing it fills the same
bytes. -/
theorem integerBytes_twosComplement (least : 1 ≤ width) (most : width ≤ 8)
    (length : bytes.length = width) :
    integerBytes (twosComplement width (ofLittleEndian bytes)) width = bytes := by
  have same := ((bmod_eq_iff_fits (v := ofLittleEndian bytes) least).1 rfl).2
  subst length
  rw [integerBytes_eq most, twosComplement]
  exact (littleEndian_congr same).trans (littleEndian_ofLittleEndian bytes)

/-- An integer that is written is read as the one that fits in the bytes and agrees with it in
them. -/
theorem signedAt_integerBytes (n : Int) (least : 1 ≤ width) (most : width ≤ 8) :
    signedAt (integerBytes n width) 0 width = .ok (n.bmod (2 ^ (8 * width))) := by
  have length : (integerBytes n width).length = width := by
    rw [integerBytes_eq most, length_littleEndian]
  have whole : span (integerBytes n width) 0 width = littleEndian n width := by
    rw [span, List.drop_zero, List.take_of_length_le (Nat.le_of_eq length), integerBytes_eq most]
  rw [signedAt_eq least most (by omega), whole, twosComplement_littleEndian]

/-- One to eight bytes anywhere are read as the natural number they spell in base 256, and as the
only integer that fits in them and agrees with it, from which the same bytes are written; shifting
words of eight bytes gives the same and never traps. The other way around, any integer is written
to bytes that are read as the only integer that fits in them and agrees with it, and that is the
integer itself if it fits. -/
theorem bytes_hold_integers (least : 1 ≤ width) (most : width ≤ 8) :
    (∀ (bytes : List UInt8) (offset : Nat), offset + width ≤ bytes.length →
      ∃ (u : Nat) (n : Int),
        unsignedAt bytes offset width = .ok u ∧ signedAt bytes offset width = .ok n ∧
        u = Nat.ofDigits 256 ((span bytes offset width).map UInt8.toNat) ∧
        FitsBytes width n ∧ n ≡ u [ZMOD 2 ^ (8 * width)] ∧
        integerBytes n width = span bytes offset width ∧
        (bytes.length < Word.bound →
          (Guarded.unsignedAt bytes offset width).Gives (.ok u) ∧
          (Guarded.signedAt bytes offset width).Gives (.ok n))) ∧
    ∀ v : Int, (Guarded.integerBytes v width).Gives (.ok (integerBytes v width)) ∧
      ∃ n, signedAt (integerBytes v width) 0 width = .ok n ∧
        (∀ m, FitsBytes width m ∧ m ≡ v [ZMOD 2 ^ (8 * width)] ↔ m = n) ∧
        (FitsBytes width v → n = v) := by
  constructor
  · intro bytes offset inside
    have length := length_span inside
    have unsigned := unsignedAt_eq least most inside
    have signed := signedAt_eq least most inside
    obtain ⟨fits, agrees⟩ := (bmod_eq_iff_fits (v := ofLittleEndian (span bytes offset width))
      least).1 rfl
    refine ⟨_, _, unsigned, signed, ofLittleEndian_eq_ofDigits _, fits, agrees,
      integerBytes_twosComplement least most length, fun small => ?_⟩
    have room : offset + width < Word.bound := Nat.lt_of_le_of_lt inside small
    rw [← unsigned, ← signed]
    exact ⟨Guarded.gives_unsignedAt room, Guarded.gives_signedAt room⟩
  · intro v
    refine ⟨Guarded.gives_integerBytes v width, _, signedAt_integerBytes v least most,
      fun m => ?_, bmod_eq_of_fits least⟩
    rw [← bmod_eq_iff_fits least]
    exact eq_comm

/-- Three bytes behind another one hold the least integer of three bytes. The greatest natural
number of three bytes does not fit in them and is read as an integer that does. -/
theorem bytes_hold_integers_three : 1 ≤ 3 ∧ 3 ≤ 8 ∧
    signedAt [0xAA, 0x00, 0x00, 0x80] 1 3 = .ok (-8388608) ∧
    integerBytes (-8388608) 3 = [0x00, 0x00, 0x80] ∧
    signedAt (integerBytes 16777215 3) 0 3 = .ok (-1) ∧
    signedAt (integerBytes 8388607 3) 0 3 = .ok 8388607 := by
  have least : signedAt [0xAA, 0x00, 0x00, 0x80] 1 3 = .ok (-8388608) := by decide +kernel
  obtain ⟨read, written⟩ := bytes_hold_integers (show 1 ≤ 3 by decide) (by decide)
  refine ⟨by decide, by decide, least, ?_, ?_, ?_⟩
  · obtain ⟨u, n, -, signed, -, -, -, back, -⟩ := read [0xAA, 0x00, 0x00, 0x80] 1 (by decide)
    obtain rfl : -8388608 = n := Except.ok.inj (least.symm.trans signed)
    exact back
  · obtain ⟨-, n, signed, only, -⟩ := written 16777215
    obtain rfl : -1 = n := (only (-1)).1 (by decide)
    exact signed
  · obtain ⟨-, n, signed, -, kept⟩ := written 8388607
    rw [kept (by decide)] at signed
    exact signed

end GroupedTables.Record
