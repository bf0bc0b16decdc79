/-!
# Eight-byte words

The bounds of the whole numbers that eight bytes hold, unsigned and in two's complement.
Ids, sequences, integer values and the scales of decimals all stay within them, so the
bounds are written once.
-/

namespace GroupedTables.Word

/-- One more than the greatest unsigned number of eight bytes. -/
def bound : Nat := 18446744073709551616

/-- The least number of eight bytes in two's complement. -/
def least : Int := -9223372036854775808

/-- The greatest number of eight bytes in two's complement. -/
def greatest : Int := 9223372036854775807

/-- Whether eight bytes hold a number in two's complement. -/
def holds (n : Int) : Bool := decide (least ≤ n ∧ n ≤ greatest)

/-- The number, or the bound that it is beyond. -/
def saturate (n : Int) : Int :=
  if greatest < n then greatest else if n < least then least else n

/-- The number that is left of a whole number in eight bytes. -/
def signed (n : Int) : Int := n.bmod bound

/-- A number that eight bytes hold is left as it is. -/
theorem signed_of_holds {n : Int} (h : holds n = true) : signed n = n := by
  obtain ⟨hl, hg⟩ := of_decide_eq_true h
  unfold least at hl
  unfold greatest at hg
  exact Int.bmod_eq_of_le_mul_two (by unfold bound; omega) (by unfold bound; omega)

/-- What has been saturated fits. -/
theorem holds_saturate (n : Int) : holds (saturate n) = true := by
  refine decide_eq_true ?_
  unfold saturate least greatest
  split
  · omega
  · split <;> omega

/-- Saturation leaves alone what fits. -/
theorem saturate_of_holds {n : Int} (h : holds n = true) : saturate n = n := by
  obtain ⟨hl, hg⟩ := of_decide_eq_true h
  rw [saturate, if_neg (Int.not_lt.2 hg), if_neg (Int.not_lt.2 hl)]

end GroupedTables.Word
