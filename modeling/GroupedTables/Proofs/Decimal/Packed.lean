import GroupedTables.Decimal.Packed
import GroupedTables.Proofs.Text.Digits
import Mathlib.Data.List.Forall2
import Mathlib.Tactic.IntervalCases

/-!
# Packed decimals read back

A magnitude is split into groups of digits, and each group has room for its digits in its
bytes, with the top bit of the first byte to spare. That bit is what tells the sign, so the
sign is found again, the groups are found again one after the other, and written out in full
they are the digits of the magnitude. What is decoded is what was rounded before it was
encoded.
-/

namespace GroupedTables.Decimal

open Text

variable {n m width : Nat} {bytes rest : List UInt8} {groups front back values more : List Nat}
  {b : UInt8}

theorem ofBigEndian_cons :
    ofBigEndian (b :: bytes) = b.toNat * 256 ^ bytes.length + ofBigEndian bytes := by
  have shifted (m : Nat) (bytes : List UInt8) : bytes.foldl (fun n b => 256 * n + b.toNat) m =
      m * 256 ^ bytes.length + ofBigEndian bytes := by
    induction bytes generalizing m with
    | nil => simp [ofBigEndian]
    | cons b rest ih =>
      rw [ofBigEndian, List.foldl_cons, List.foldl_cons, ih, ih (256 * 0 + _), List.length_cons]
      ring
  rw [ofBigEndian, List.foldl_cons, shifted, Nat.mul_zero, Nat.zero_add]

@[simp] theorem length_bigEndian (n width : Nat) : (bigEndian n width).length = width := by
  induction width with
  | zero => rfl
  | succ width ih => rw [bigEndian, List.length_cons, ih]

theorem ofBigEndian_bigEndian (n width : Nat) :
    ofBigEndian (bigEndian n width) = n % 256 ^ width := by
  induction width with
  | zero => simp [bigEndian, ofBigEndian, Nat.mod_one]
  | succ width ih =>
    have small : n / 256 ^ width % 256 < 256 := Nat.mod_lt _ (by decide)
    have byte : (UInt8.ofNat (n / Nat.pow 256 width % 256)).toNat = n / 256 ^ width % 256 := by
      rw [UInt8.toNat_ofNat']
      exact Nat.mod_eq_of_lt small
    rw [bigEndian, ofBigEndian_cons, byte, ih, length_bigEndian, Nat.mod_pow_succ]
    ring

/-- Each group has at least one digit and at most nine. -/
def Grouping (groups : List Nat) : Prop := ∀ g ∈ groups, 1 ≤ g ∧ g ≤ fullGroup

theorem grouping_integralGroups (precision scale : Nat) :
    Grouping (integralGroups precision scale) := by
  unfold Grouping integralGroups restGroup fullGroup
  intro g inside
  obtain inside | inside := List.mem_append.1 inside
  · split at inside
    · cases inside
    · obtain rfl := List.mem_singleton.1 inside
      omega
  · obtain ⟨_, rfl⟩ := List.mem_replicate.1 inside
    omega

theorem grouping_fractionGroups (scale : Nat) : Grouping (fractionGroups scale) := by
  unfold Grouping fractionGroups restGroup fullGroup
  intro g inside
  obtain inside | inside := List.mem_append.1 inside
  · obtain ⟨_, rfl⟩ := List.mem_replicate.1 inside
    omega
  · split at inside
    · cases inside
    · obtain rfl := List.mem_singleton.1 inside
      omega

theorem sum_restGroup (digits : Nat) : (restGroup digits).sum = digits := by
  unfold restGroup
  split
  · simp [*]
  · simp

theorem sum_integralGroups (precision scale : Nat) :
    (integralGroups precision scale).sum = integralDigits precision scale := by
  simp only [integralGroups, List.sum_append, sum_restGroup, List.sum_replicate_nat,
    fullGroup]
  omega

theorem sum_fractionGroups (scale : Nat) : (fractionGroups scale).sum = scale := by
  simp only [fractionGroups, List.sum_append, sum_restGroup, List.sum_replicate_nat,
    fullGroup]
  omega

/-- The digits of a group leave the top bit of its first byte free. -/
theorem pow_le_of_group {g : Nat} (some : 1 ≤ g) (most : g ≤ fullGroup) :
    1 ≤ groupBytes g ∧ 10 ^ g ≤ 128 * 256 ^ (groupBytes g - 1) := by
  unfold fullGroup at most
  interval_cases g <;> decide

theorem groupBytes_le {g : Nat} (most : g ≤ fullGroup) : groupBytes g ≤ 4 := by
  unfold fullGroup at most
  interval_cases g <;> decide

theorem pow_le_groupBytes {g : Nat} (some : 1 ≤ g) (most : g ≤ fullGroup) :
    10 ^ g ≤ 256 ^ groupBytes g := by
  obtain ⟨bytes, room⟩ := pow_le_of_group some most
  obtain ⟨more, same⟩ : ∃ more, groupBytes g = more + 1 := ⟨groupBytes g - 1, by omega⟩
  rw [same, Nat.add_sub_cancel] at room
  rw [same, Nat.pow_succ]
  omega

theorem magnitudeBytes_cons (n g : Nat) (rest : List Nat) : magnitudeBytes n (g :: rest) =
    bigEndian (n / 10 ^ rest.sum) (groupBytes g) ++ magnitudeBytes (n % 10 ^ rest.sum) rest := rfl

@[simp] theorem length_magnitudeBytes (n : Nat) (groups : List Nat) :
    (magnitudeBytes n groups).length = (groups.map groupBytes).sum := by
  induction groups generalizing n with
  | nil => rfl
  | cons g rest ih =>
    rw [magnitudeBytes_cons, List.length_append, length_bigEndian, ih, List.map_cons, List.sum_cons]

theorem sum_groupBytes (precision scale : Nat) :
    ((integralGroups precision scale ++ fractionGroups scale).map groupBytes).sum =
      packedSize precision scale := by
  have rest (digits : Nat) : ((restGroup digits).map groupBytes).sum = groupBytes digits := by
    unfold restGroup
    split
    case isTrue none => rw [none]; rfl
    case isFalse => simp
  have full : groupBytes fullGroup = 4 := rfl
  simp only [integralGroups, fractionGroups, List.map_append, List.sum_append, rest,
    List.map_replicate, full, List.sum_replicate_nat, packedSize]
  omega

/-- Only decimals without any digits take no bytes. -/
theorem packedSize_eq_zero_iff {precision scale : Nat} :
    packedSize precision scale = 0 ↔ precision = 0 ∧ scale = 0 := by
  have filled (digits : Nat) (none : groupBytes (digits % fullGroup) = 0) :
      digits % fullGroup = 0 := by
    by_contra some
    have most := Nat.mod_lt digits (show 0 < fullGroup by decide)
    have width := (pow_le_of_group (Nat.pos_of_ne_zero some) (Nat.le_of_lt most)).1
    omega
  constructor
  · intro none
    simp only [packedSize, integralDigits] at none
    have front := filled (precision - scale) (by omega)
    have back := filled scale (by omega)
    simp only [fullGroup] at none front back
    omega
  · rintro ⟨rfl, rfl⟩
    rfl

/-- What remains of a magnitude behind its first group has room in the other groups, and the
first group in its digits. -/
theorem split_lt {g : Nat} (small : n < 10 ^ (g :: groups).sum) :
    n / 10 ^ groups.sum < 10 ^ g ∧ n % 10 ^ groups.sum < 10 ^ groups.sum := by
  have positive : 0 < 10 ^ groups.sum := Nat.pow_pos (by decide)
  refine ⟨(Nat.div_lt_iff_lt_mul positive).2 ?_, Nat.mod_lt _ positive⟩
  rwa [← Nat.pow_add, ← List.sum_cons]

/-- The groups of a magnitude are found again in its bytes. -/
theorem readGroups_magnitudeBytes (rest : List UInt8) (grouping : Grouping groups)
    (small : n < 10 ^ groups.sum) :
    readGroups (magnitudeBytes n groups ++ rest) groups = (splitGroups n groups, rest) := by
  induction groups generalizing n with
  | nil => rfl
  | cons g groups ih =>
    obtain ⟨some, most⟩ := grouping g (.head _)
    obtain ⟨first, others⟩ := split_lt small
    have width : (bigEndian (n / 10 ^ groups.sum) (groupBytes g)).length = groupBytes g :=
      length_bigEndian ..
    have taken : (magnitudeBytes n (g :: groups) ++ rest).take (groupBytes g) =
        bigEndian (n / 10 ^ groups.sum) (groupBytes g) := by
      rw [magnitudeBytes_cons, List.append_assoc, List.take_left' width]
    have left : (magnitudeBytes n (g :: groups) ++ rest).drop (groupBytes g) =
        magnitudeBytes (n % 10 ^ groups.sum) groups ++ rest := by
      rw [magnitudeBytes_cons, List.append_assoc, List.drop_left' width]
    have value : ofBigEndian (bigEndian (n / 10 ^ groups.sum) (groupBytes g)) =
        n / 10 ^ groups.sum := by
      rw [ofBigEndian_bigEndian]
      exact Nat.mod_eq_of_lt (Nat.lt_of_lt_of_le first (pow_le_groupBytes some most))
    rw [readGroups, taken, left, value, ih (fun g inside => grouping g (.tail _ inside)) others]
    rfl

theorem readGroups_append : readGroups bytes (front ++ back) =
    ((readGroups bytes front).1 ++ (readGroups (readGroups bytes front).2 back).1,
      (readGroups (readGroups bytes front).2 back).2) := by
  induction front generalizing bytes with
  | nil => rfl
  | cons g front ih => rw [List.cons_append, readGroups, ih]; rfl

@[simp] theorem length_splitGroups (n : Nat) (groups : List Nat) :
    (splitGroups n groups).length = groups.length := by
  induction groups generalizing n with
  | nil => rfl
  | cons g groups ih => exact congrArg Nat.succ (ih (n % 10 ^ groups.sum))

/-- What stands before a point among the groups and what stands behind it are split on their
own. -/
theorem splitGroups_append (small : n < 10 ^ (front ++ back).sum) : splitGroups n (front ++ back) =
    splitGroups (n / 10 ^ back.sum) front ++ splitGroups (n % 10 ^ back.sum) back := by
  induction front generalizing n with
  | nil =>
    rw [List.nil_append] at small ⊢
    rw [Nat.mod_eq_of_lt small]
    rfl
  | cons g front ih =>
    have power : 10 ^ (front ++ back).sum = 10 ^ back.sum * 10 ^ front.sum := by
      rw [List.sum_append, Nat.pow_add, Nat.mul_comm]
    have rest := ih (n := n % 10 ^ (front ++ back).sum) (split_lt small).2
    rw [power, Nat.mod_mul_right_div_self, Nat.mod_mod_of_dvd _ (Nat.dvd_mul_right ..),
      ← power] at rest
    change n / 10 ^ (front ++ back).sum ::
        splitGroups (n % 10 ^ (front ++ back).sum) (front ++ back) =
      n / 10 ^ back.sum / 10 ^ front.sum ::
        splitGroups (n / 10 ^ back.sum % 10 ^ front.sum) front ++ _
    rw [rest, Nat.div_div_eq_div_mul, ← power]
    rfl

/-- The digits of groups, one after the other. -/
def filled (values groups : List Nat) : List Char :=
  (values.zip groups).flatMap fun (value, digits) => zeroFilled digits value

/-- The values have room in the digits of their groups. -/
def Fit (values groups : List Nat) : Prop :=
  List.Forall₂ (fun value digits => 0 < digits ∧ value < 10 ^ digits) values groups

theorem length_filled (fit : Fit values groups) : (filled values groups).length = groups.sum := by
  induction fit with
  | nil => rfl
  | cons first _ ih =>
    rw [filled] at ih
    rw [filled, List.zip_cons_cons, List.flatMap_cons, List.length_append, ih,
      length_zeroFilled first.1 first.2, List.sum_cons]

theorem fit_splitGroups (grouping : Grouping groups) (small : n < 10 ^ groups.sum) :
    Fit (splitGroups n groups) groups := by
  induction groups generalizing n with
  | nil => exact .nil
  | cons g groups ih =>
    obtain ⟨first, others⟩ := split_lt small
    exact .cons ⟨(grouping g (.head _)).1, first⟩
      (ih (fun g inside => grouping g (.tail _ inside)) others)

/-- The groups of a magnitude, written out in full, are its digits. -/
theorem digitsValue_filled (grouping : Grouping groups) (small : n < 10 ^ groups.sum) :
    digitsValue (filled (splitGroups n groups) groups) = n := by
  induction groups generalizing n with
  | nil => 
    have zero : n = 0 := by simpa using small
    rw [zero]
    rfl
  | cons g groups ih =>
    obtain ⟨_, others⟩ := split_lt small
    have grouping' : Grouping groups := fun g inside => grouping g (.tail _ inside)
    have cut : filled (splitGroups n (g :: groups)) (g :: groups) =
        zeroFilled g (n / 10 ^ groups.sum) ++
          filled (splitGroups (n % 10 ^ groups.sum) groups) groups := rfl
    rw [cut, digitsValue_append, digitsValue_zeroFilled, ih grouping' others,
      length_filled (fit_splitGroups grouping' others), Nat.mul_comm, Nat.div_add_mod]

/-- The groups of a magnitude, written out in full, are the magnitude with zeros in front. -/
theorem filled_splitGroups (grouping : Grouping groups) (small : n < 10 ^ groups.sum) :
    filled (splitGroups n groups) groups =
      if groups.sum = 0 then [] else zeroFilled groups.sum n := by
  have width := length_filled (fit_splitGroups grouping small)
  split
  case isTrue none => exact List.length_eq_zero_iff.1 (width.trans none)
  case isFalse some =>
    apply eq_of_digitsValue_eq
    · rw [width, length_zeroFilled (Nat.pos_of_ne_zero some) small]
    · intro c inside
      obtain ⟨_, _, inside⟩ := List.mem_flatMap.1 inside
      exact isDigit_zeroFilled inside
    · intro c inside
      exact isDigit_zeroFilled inside
    · rw [digitsValue_filled grouping small, digitsValue_zeroFilled]

theorem flipTopBit_flipTopBit (bytes : List UInt8) : flipTopBit (flipTopBit bytes) = bytes := by
  cases bytes with
  | nil => rfl
  | cons b rest => rw [flipTopBit, flipTopBit, UInt8.xor_assoc, UInt8.xor_self, UInt8.xor_zero]

theorem invertBytes_invertBytes (bytes : List UInt8) : invertBytes (invertBytes bytes) = bytes := by
  simp [invertBytes, Function.comp_def]

theorem flipTopBit_invertBytes (bytes : List UInt8) :
    flipTopBit (invertBytes bytes) = invertBytes (flipTopBit bytes) := by
  cases bytes with
  | nil => rfl
  | cons b rest => simp [flipTopBit, invertBytes, UInt8.not_xor]

/-- A free top bit is set when it is flipped, and cleared when the byte is inverted first. -/
theorem topBit_of_free (free : b < 0x80) : ¬ b ^^^ 0x80 < 0x80 ∧ ~~~b ^^^ 0x80 < 0x80 := by
  obtain ⟨⟨⟨n, small⟩⟩⟩ := b
  revert n
  decide +kernel

/-- The bytes of a magnitude with its sign folded in. -/
def folded (negative : Bool) (bytes : List UInt8) : List UInt8 :=
  flipTopBit (if negative then invertBytes bytes else bytes)

/-- What the top bit of stored bytes says of the sign. -/
def isNegative : List UInt8 → Bool
  | [] => false
  | b :: _ => b < 0x80

@[simp] theorem length_folded (negative : Bool) (bytes : List UInt8) :
    (folded negative bytes).length = bytes.length := by
  cases negative <;> cases bytes <;> simp [folded, flipTopBit, invertBytes]

theorem isNegative_folded {negative : Bool} (free : ∀ b ∈ bytes.head?, b < 0x80)
    (some : negative = true → bytes ≠ []) : isNegative (folded negative bytes) = negative := by
  cases bytes with
  | nil =>
    cases negative with
    | true => exact absurd rfl (some rfl)
    | false => rfl
  | cons b rest =>
    obtain ⟨set, clear⟩ := topBit_of_free (free b rfl)
    cases negative with
    | true => exact decide_eq_true clear
    | false => exact decide_eq_false set

/-- Folding the sign in once more takes it out. -/
theorem folded_folded (negative : Bool) (bytes : List UInt8) :
    folded negative (folded negative bytes) = bytes := by
  cases negative with
  | true =>
    simp only [folded, if_true]
    rw [← flipTopBit_invertBytes, flipTopBit_flipTopBit, invertBytes_invertBytes]
  | false => exact flipTopBit_flipTopBit bytes

theorem free_magnitudeBytes (grouping : Grouping groups) (small : n < 10 ^ groups.sum) :
    ∀ b ∈ (magnitudeBytes n groups).head?, b < 0x80 := by
  intro b first
  cases groups with
  | nil => cases first
  | cons g groups =>
    obtain ⟨some, most⟩ := grouping g (.head _)
    obtain ⟨bytes, room⟩ := pow_le_of_group some most
    obtain ⟨more, same⟩ : ∃ more, groupBytes g = more + 1 := ⟨groupBytes g - 1, by omega⟩
    rw [same, Nat.add_sub_cancel] at room
    have top : n / 10 ^ groups.sum / 256 ^ more < 128 :=
      (Nat.div_lt_iff_lt_mul (Nat.pow_pos (by decide))).2
        (Nat.lt_of_lt_of_le (split_lt small).1 room)
    rw [magnitudeBytes_cons, same, bigEndian] at first
    cases first
    rw [UInt8.lt_iff_toNat_lt, UInt8.toNat_ofNat']
    exact Nat.lt_of_le_of_lt (Nat.mod_le ..) (Nat.lt_of_le_of_lt (Nat.mod_le ..) top)

/-- A magnitude that is not zero takes some bytes. -/
theorem magnitudeBytes_ne_nil (grouping : Grouping groups) (small : n < 10 ^ groups.sum)
    (nonzero : n ≠ 0) : magnitudeBytes n groups ≠ [] := by
  cases groups with
  | nil => exact absurd (by simpa using small) nonzero
  | cons g groups =>
    obtain ⟨some, most⟩ := grouping g (.head _)
    have bytes := (pow_le_of_group some most).1
    rw [← List.length_pos_iff, length_magnitudeBytes, List.map_cons, List.sum_cons]
    omega

variable {precision scale : Nat} {d : Decimal}

def allGroups (precision scale : Nat) : List Nat :=
  integralGroups precision scale ++ fractionGroups scale

theorem grouping_allGroups (precision scale : Nat) : Grouping (allGroups precision scale) :=
  fun g inside => (List.mem_append.1 inside).elim (grouping_integralGroups precision scale g)
    (grouping_fractionGroups scale g)

theorem sum_allGroups (precision scale : Nat) :
    (allGroups precision scale).sum = integralDigits precision scale + scale := by
  rw [allGroups, List.sum_append, sum_integralGroups, sum_fractionGroups]

/-- An encoded decimal is the bytes of what it was rounded to, with its sign folded in. -/
theorem encode_eq_ok {bytes : List UInt8} (encoded : d.encode precision scale = .ok bytes) :
    (d.roundedUnits scale).natAbs < 10 ^ (allGroups precision scale).sum ∧
      bytes = folded (decide (d.roundedUnits scale < 0))
        (magnitudeBytes (d.roundedUnits scale).natAbs (allGroups precision scale)) := by
  unfold encode at encoded
  dsimp only at encoded
  split at encoded
  · cases encoded
  · split at encoded
    · cases encoded
    case isFalse fits =>
      cases encoded
      rw [sum_allGroups]
      refine ⟨Nat.not_le.1 fits, ?_⟩
      rw [folded]
      simp only [decide_eq_true_eq]
      rfl

theorem readDigits_eq {plain : List UInt8} (width : bytes.length = packedSize precision scale)
    (unfolded : folded (isNegative bytes) bytes = plain) :
    readDigits bytes precision scale = .ok {
      negative := isNegative bytes
      integral := (filled (readGroups plain (integralGroups precision scale)).1
        (integralGroups precision scale)).dropWhile (· = '0')
      fraction := filled (readGroups (readGroups plain (integralGroups precision scale)).2
        (fractionGroups scale)).1 (fractionGroups scale) } := by
  subst unfolded
  unfold readDigits
  dsimp only
  rw [if_neg (not_not.2 width)]
  rfl

theorem length_readGroups (bytes : List UInt8) (groups : List Nat) :
    (readGroups bytes groups).1.length = groups.length := by
  induction groups generalizing bytes with
  | nil => rfl
  | cons g groups ih => rw [readGroups, List.length_cons, List.length_cons, ih]

/-- The groups before the point and those behind it are found again in the bytes of a
magnitude. -/
theorem readGroups_allGroups (small : n < 10 ^ (allGroups precision scale).sum) :
    (readGroups (magnitudeBytes n (allGroups precision scale))
        (integralGroups precision scale)).1 =
      splitGroups (n / 10 ^ scale) (integralGroups precision scale) ∧
    (readGroups (readGroups (magnitudeBytes n (allGroups precision scale))
        (integralGroups precision scale)).2 (fractionGroups scale)).1 =
      splitGroups (n % 10 ^ scale) (fractionGroups scale) := by
  have read := readGroups_magnitudeBytes [] (grouping_allGroups precision scale) small
  have split := splitGroups_append small
  rw [← allGroups, sum_fractionGroups] at split
  rw [split, List.append_nil, allGroups, readGroups_append, Prod.mk.injEq] at read
  apply List.append_inj read.1
  rw [length_readGroups, length_splitGroups]

/-- An encoded decimal takes as many bytes as any of its precision and scale. -/
theorem length_of_encode (encoded : d.encode precision scale = .ok bytes) :
    bytes.length = packedSize precision scale := by
  obtain ⟨_, rfl⟩ := encode_eq_ok encoded
  rw [length_folded, length_magnitudeBytes, allGroups, sum_groupBytes]

/-- The digits of so many units: none before the point if they are less than one, and as many
behind it as there are places. -/
def Digits.ofUnits (units : Int) (places : Nat) : Digits :=
  let n := units.natAbs
  { negative := units < 0
    integral := if n / Nat.pow 10 places = 0 then [] else digits (n / Nat.pow 10 places)
    fraction := if places = 0 then [] else zeroFilled places (n % Nat.pow 10 places) }

/-- The digits of an encoded decimal are those of what it was rounded to. -/
theorem readDigits_of_encode (encoded : d.encode precision scale = .ok bytes) :
    readDigits bytes precision scale = .ok (.ofUnits (d.roundedUnits scale) scale) := by
  have width := length_of_encode encoded
  obtain ⟨small, rfl⟩ := encode_eq_ok encoded
  generalize d.roundedUnits scale = units at small width ⊢
  have grouping := grouping_allGroups precision scale
  have some (negative : decide (units < 0) = true) :
      magnitudeBytes units.natAbs (allGroups precision scale) ≠ [] :=
    magnitudeBytes_ne_nil grouping small (by have := of_decide_eq_true negative; omega)
  have sign := isNegative_folded (free_magnitudeBytes grouping small) some
  have plain := folded_folded (decide (units < 0))
    (magnitudeBytes units.natAbs (allGroups precision scale))
  obtain ⟨integral, fraction⟩ := readGroups_allGroups small
  rw [sum_allGroups] at small
  have before : units.natAbs / 10 ^ scale < 10 ^ (integralGroups precision scale).sum := by
    rw [sum_integralGroups, Nat.div_lt_iff_lt_mul (Nat.pow_pos (by decide)), ← Nat.pow_add]
    exact small
  have behind : units.natAbs % 10 ^ scale < 10 ^ (fractionGroups scale).sum := by
    rw [sum_fractionGroups]
    exact Nat.mod_lt _ (Nat.pow_pos (by decide))
  rw [readDigits_eq width (by rw [sign, plain]), sign, integral, fraction,
    filled_splitGroups (grouping_integralGroups precision scale) before,
    filled_splitGroups (grouping_fractionGroups scale) behind, sum_fractionGroups]
  congr 2
  split
  case isTrue none =>
    rw [none] at before
    exact (if_pos (Nat.lt_one_iff.1 before)).symm
  case isFalse => exact dropWhile_zeroFilled ..

theorem Digits.decimal_ofUnits (units : Int) (places : Nat) :
    (ofUnits units places).decimal = ⟨units, places⟩ := by
  have whole (n : Nat) : digitsValue (if n = 0 then [] else digits n) = n := by
    split
    case isTrue zero => exact zero.symm
    case isFalse => exact digitsValue_digits n
  have positive : 0 < Nat.pow 10 places := Nat.pow_pos (by decide)
  have behind (n : Nat) (small : n < 10 ^ places) :
      (if places = 0 then [] else zeroFilled places n).length = places ∧
        digitsValue (if places = 0 then [] else zeroFilled places n) = n := by
    split
    case isTrue none =>
      rw [none, Nat.pow_zero, Nat.lt_one_iff] at small
      rw [none, small]
      exact ⟨rfl, rfl⟩
    case isFalse some =>
      exact ⟨length_zeroFilled (Nat.pos_of_ne_zero some) small, digitsValue_zeroFilled ..⟩
  obtain ⟨length, value⟩ := behind (units.natAbs % Nat.pow 10 places) (Nat.mod_lt _ positive)
  rw [decimal, ofUnits]
  dsimp only
  rw [digitsValue_append, whole, length, value]
  have cut : units.natAbs / Nat.pow 10 places * 10 ^ places + units.natAbs % Nat.pow 10 places =
      units.natAbs := Nat.div_add_mod' ..
  rw [cut]
  simp only [decide_eq_true_eq]
  congr 1
  split <;> omega

/-- What is decoded is the value that was encoded, rounded to the scale. -/
theorem decode_of_encode (encoded : d.encode precision scale = .ok bytes) :
    decode bytes precision scale = .ok ⟨d.roundedUnits scale, scale⟩ := by
  rw [decode, readDigits_of_encode encoded, Except.map, Digits.decimal_ofUnits]

end GroupedTables.Decimal
