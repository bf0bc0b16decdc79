import GroupedTables.Proofs.Decimal.Sorting
import GroupedTables.Proofs.Floating.Numerals

/-!
# Which bytes are stored decimals

Any bytes of the right number are read as a decimal, and the text they are written out as is one
that a decimal is read from. A group of digits has more room in its bytes than its digits need, so
not all of these bytes are ever written. Those that are have no group beyond its digits and no minus
sign in front of zero. They are just the bytes that are written again when what was read from them
is stored.
-/

namespace GroupedTables.Decimal

open Text

variable {n places precision scale : ℕ} {bytes bytes' : List UInt8}
  {values values' groups groups' : List ℕ} {ds : List Char} {d : Decimal}

theorem ofBigEndian_lt (bytes : List UInt8) : ofBigEndian bytes < 256 ^ bytes.length := by
  induction bytes with
  | nil => decide
  | cons b rest ih =>
    have small := b.toNat_lt
    have room : (b.toNat + 1) * 256 ^ rest.length ≤ 256 * 256 ^ rest.length :=
      Nat.mul_le_mul_right _ small
    rw [ofBigEndian_cons, List.length_cons, Nat.pow_succ']
    rw [Nat.succ_mul] at room
    omega

/-- As many bytes that stand for one number are the same bytes. -/
theorem eq_of_ofBigEndian_eq (same : bytes.length = bytes'.length)
    (value : ofBigEndian bytes = ofBigEndian bytes') : bytes = bytes' := by
  induction bytes generalizing bytes' with
  | nil => exact (List.length_eq_zero_iff.1 same.symm).symm
  | cons b rest ih =>
    obtain _ | ⟨b', rest'⟩ := bytes'
    · cases same
    · have same := Nat.succ.inj same
      have small := ofBigEndian_lt rest
      have small' := ofBigEndian_lt rest'
      rw [ofBigEndian_cons, ofBigEndian_cons, ← same] at value
      rw [← same] at small'
      have leading : b.toNat = b'.toNat := by
        have cut := congrArg (· / 256 ^ rest.length) value
        simpa [Nat.mul_add_div, Nat.mul_comm _ (256 ^ rest.length), Nat.div_eq_of_lt small,
          Nat.div_eq_of_lt small'] using cut
      rw [leading] at value
      rw [UInt8.toNat_inj.1 leading, ih same (Nat.add_left_cancel value)]

theorem bigEndian_ofBigEndian (bytes : List UInt8) :
    bigEndian (ofBigEndian bytes) bytes.length = bytes := by
  apply eq_of_ofBigEndian_eq (length_bigEndian ..)
  rw [ofBigEndian_bigEndian, Nat.mod_eq_of_lt (ofBigEndian_lt bytes)]

/-- The bytes of groups are found again from the values that are read from them. -/
theorem flatMap_readGroups (width : bytes.length = (groups.map groupBytes).sum) :
    (((readGroups bytes groups).1.zip groups).flatMap fun (value, digits) =>
      bigEndian value (groupBytes digits)) = bytes := by
  induction groups generalizing bytes with
  | nil => exact (List.length_eq_zero_iff.1 width).symm
  | cons g rest ih =>
    rw [List.map_cons, List.sum_cons] at width
    have first : (bytes.take (groupBytes g)).length = groupBytes g := by
      rw [List.length_take]
      omega
    have written := bigEndian_ofBigEndian (bytes.take (groupBytes g))
    rw [first] at written
    rw [readGroups, List.zip_cons_cons, List.flatMap_cons, ih (by rw [List.length_drop]; omega)]
    dsimp only
    rw [written, List.take_append_drop]

/-- No value has more digits than there can be in four bytes. -/
theorem length_digits_readGroups (grouping : Grouping groups) :
    ∀ value ∈ (readGroups bytes groups).1, (digits value).length ≤ 10 := by
  induction groups generalizing bytes with
  | nil => exact fun value inside => absurd inside List.not_mem_nil
  | cons g rest ih =>
    rw [readGroups, List.forall_mem_cons]
    refine ⟨?_, ih fun g inside => grouping g (.tail _ inside)⟩
    have taken : (bytes.take (groupBytes g)).length ≤ 4 :=
      Nat.le_trans (List.length_take_le ..) (groupBytes_le (grouping g (.head _)).2)
    apply (Nat.length_toDigits_le_iff (by decide) (by decide)).2
    calc ofBigEndian (bytes.take (groupBytes g)) < 256 ^ (bytes.take (groupBytes g)).length :=
          ofBigEndian_lt _
      _ ≤ 256 ^ 4 := Nat.pow_le_pow_right (by decide) taken
      _ < 10 ^ 10 := by decide

theorem filled_cons (value g : ℕ) : filled (value :: values) (g :: groups) =
    zeroFilled g value ++ filled values groups := rfl

theorem filled_append (same : values.length = groups.length) :
    filled (values ++ values') (groups ++ groups') =
      filled values groups ++ filled values' groups' := by
  rw [filled, List.zip_append same, List.flatMap_append]
  rfl

theorem isDigit_filled {c : Char} (inside : c ∈ filled values groups) : c.isDigit = true := by
  obtain ⟨_, _, inside⟩ := List.mem_flatMap.1 inside
  exact isDigit_zeroFilled inside

/-- Written out in full, groups take at least as many digits as they have, and at most ten each. -/
theorem length_filled_bounds (same : values.length = groups.length) (grouping : Grouping groups)
    (short : ∀ value ∈ values, (digits value).length ≤ 10) :
    groups.sum ≤ (filled values groups).length ∧
      (filled values groups).length ≤ 10 * groups.sum := by
  induction groups generalizing values with
  | nil =>
    obtain rfl := List.length_eq_zero_iff.1 same
    exact ⟨Nat.le_refl _, Nat.le_refl _⟩
  | cons g rest ih =>
    obtain _ | ⟨value, values⟩ := values
    · cases same
    obtain ⟨some, most⟩ := grouping g (.head _)
    obtain ⟨least, greatest⟩ := ih (Nat.succ.inj same)
      (fun g inside => grouping g (.tail _ inside)) fun v inside => short v (.tail _ inside)
    have first := short value (.head _)
    unfold fullGroup at most
    rw [filled_cons, List.length_append, zeroFilled, List.length_append, List.length_replicate,
      List.sum_cons]
    omega

/-- Values with room in the digits of their groups are the groups of the number that all the digits
stand for. -/
theorem splitGroups_digitsValue (fit : Fit values groups) :
    digitsValue (filled values groups) < 10 ^ groups.sum ∧
      splitGroups (digitsValue (filled values groups)) groups = values := by
  have small {values groups} (fit : Fit values groups) :
      digitsValue (filled values groups) < 10 ^ groups.sum := by
    rw [← length_filled fit]
    exact digitsValue_lt fun c inside => isDigit_filled inside
  refine ⟨small fit, ?_⟩
  induction fit with
  | nil => rfl
  | @cons value g values groups first fit ih =>
    have positive : 0 < 10 ^ groups.sum := Nat.pow_pos (by decide)
    have rest := small fit
    have whole : digitsValue (filled (value :: values) (g :: groups)) =
        10 ^ groups.sum * value + digitsValue (filled values groups) := by
      rw [filled_cons, digitsValue_append, digitsValue_zeroFilled, length_filled fit, Nat.mul_comm]
    change _ / 10 ^ groups.sum :: splitGroups (_ % 10 ^ groups.sum) groups = value :: values
    rw [whole, Nat.mul_add_div positive, Nat.mul_add_mod, Nat.div_eq_of_lt rest,
      Nat.mod_eq_of_lt rest, ih, Nat.add_zero]

/-- Groups stand for zero just if every one of them does. -/
theorem digitsValue_filled_eq_zero_iff (same : values.length = groups.length) :
    digitsValue (filled values groups) = 0 ↔ ∀ value ∈ values, value = 0 := by
  induction groups generalizing values with
  | nil =>
    obtain rfl := List.length_eq_zero_iff.1 same
    simp [filled]
  | cons g rest ih =>
    obtain _ | ⟨value, values⟩ := values
    · cases same
    · have positive : 10 ^ (filled values rest).length ≠ 0 := by positivity
      rw [filled_cons, digitsValue_append, digitsValue_zeroFilled, Nat.add_eq_zero_iff,
        ih (Nat.succ.inj same), List.forall_mem_cons, Nat.mul_eq_zero, or_iff_left positive]

theorem units?_digits (some : ds ≠ []) (all : ∀ c ∈ ds, c.isDigit = true) :
    units? ds = .some (digitsValue ds : ℤ) ∧ units? ('-' :: ds) = .some (-digitsValue ds : ℤ) := by
  obtain ⟨c, rest, rfl⟩ := List.exists_cons_of_ne_nil some
  obtain ⟨first, others⟩ := List.forall_mem_cons.1 all
  have minus : c ≠ '-' := Floating.ne_of_isDigit first rfl
  have plus : c ≠ '+' := Floating.ne_of_isDigit first rfl
  have joiner : c ≠ '_' := Floating.ne_of_isDigit first rfl
  have kept : rest.filter (fun c => !decide (c = '_')) = rest := by
    refine List.filter_eq_self.2 fun c inside => ?_
    simpa using Floating.ne_of_isDigit (others c inside) rfl
  have spelled : ∀ c ∈ rest, c.isDigit = false → c = '_' := fun c inside other =>
    absurd (others c inside) (Bool.eq_false_iff.1 other)
  simpa [units?, minus, plus, joiner, first, kept] using spelled

/-- Taking the point out leaves the digits on both sides of it. -/
theorem takePoint_append {front fraction : List Char} (pointless : '.' ∉ front)
    (all : ∀ c ∈ fraction, c.isDigit = true) :
    takePoint (front ++ if fraction.isEmpty then [] else '.' :: fraction) =
      (front ++ fraction, fraction.length) := by
  have skipped : ∀ c ∈ front, decide (c ≠ '.') = true := fun c inside =>
    decide_eq_true fun point => pointless (point ▸ inside)
  cases fraction with
  | nil =>
    have none : front.dropWhile (fun c => decide (c ≠ '.')) = [] :=
      List.dropWhile_eq_nil_iff.2 skipped
    rw [List.isEmpty_nil, if_pos rfl, List.append_nil, takePoint, none]
    rfl
  | cons c rest =>
    have places : (c :: rest).countP (fun c => decide (c ≠ '_')) = (c :: rest).length := by
      refine List.countP_eq_length.2 fun c inside => ?_
      exact decide_eq_true (Floating.ne_of_isDigit (all c inside) rfl)
    have stop : ('.' :: c :: rest).dropWhile (fun c => decide (c ≠ '.')) = '.' :: c :: rest := rfl
    have none : ('.' :: c :: rest).takeWhile (fun c => decide (c ≠ '.')) = [] := rfl
    rw [List.isEmpty_cons, if_neg Bool.false_ne_true, takePoint,
      List.dropWhile_append_of_pos skipped, List.takeWhile_append_of_pos skipped, stop, none,
      List.append_nil]
    exact congrArg (Prod.mk _) places

namespace Digits

variable {ds : Digits}

def sign (ds : Digits) : List Char := if ds.negative && !ds.isZero then ['-'] else []

def whole (ds : Digits) : List Char := if ds.integral.isEmpty then ['0'] else ds.integral

theorem chars_eq (ds : Digits) : ds.chars =
    ds.sign ++ ds.whole ++ if ds.fraction.isEmpty then [] else '.' :: ds.fraction := rfl

theorem whole_ne_nil (ds : Digits) : ds.whole ≠ [] := by
  unfold whole
  split
  case isTrue => exact List.cons_ne_nil _ _
  case isFalse some => exact fun none => some (List.isEmpty_iff.2 none)

theorem isDigit_whole (all : ∀ c ∈ ds.integral, c.isDigit = true) :
    ∀ c ∈ ds.whole, c.isDigit = true := by
  unfold whole
  split
  · exact List.forall_mem_singleton.2 rfl
  · exact all

theorem digitsValue_whole (ds : Digits) :
    digitsValue (ds.whole ++ ds.fraction) = digitsValue (ds.integral ++ ds.fraction) := by
  have zero : digitsValue ds.whole = digitsValue ds.integral := by
    unfold whole
    split
    case isTrue none => rw [List.isEmpty_iff.1 none]; rfl
    case isFalse => rfl
  rw [digitsValue_append, digitsValue_append, zero]

/-- A minus sign stands in front just if the decimal is the opposite of what its digits say. -/
theorem sign_units (ds : Digits) :
    ds.sign = [] ∧ ds.decimal.units = digitsValue (ds.whole ++ ds.fraction) ∨
      ds.sign = ['-'] ∧ ds.decimal.units = -digitsValue (ds.whole ++ ds.fraction) := by
  rw [digitsValue_whole]
  cases negative : ds.negative with
  | false => exact .inl ⟨by rw [sign, negative]; rfl, by rw [decimal, negative]; rfl⟩
  | true =>
    have opposite : ds.decimal.units = -digitsValue (ds.integral ++ ds.fraction) := by
      rw [decimal, negative]
      rfl
    cases zero : ds.isZero with
    | false => exact .inr ⟨by rw [sign, negative, zero]; rfl, opposite⟩
    | true =>
      refine .inl ⟨by rw [sign, negative, zero]; rfl, ?_⟩
      have none := units_of_isZero zero
      omega

theorem digit_or_minus (integral : ∀ c ∈ ds.integral, c.isDigit = true) :
    ∀ c ∈ ds.sign ++ ds.whole, c.isDigit = true ∨ c = '-' := by
  intro c inside
  obtain inside | inside := List.mem_append.1 inside
  · obtain ⟨sign, -⟩ | ⟨sign, -⟩ := ds.sign_units <;> rw [sign] at inside
    · exact absurd inside List.not_mem_nil
    · exact .inr (List.mem_singleton.1 inside)
  · exact .inl (isDigit_whole integral c inside)

/-- Besides digits there is nothing but a minus sign and a point in the text. -/
theorem digit_or_mark (integral : ∀ c ∈ ds.integral, c.isDigit = true)
    (fraction : ∀ c ∈ ds.fraction, c.isDigit = true) :
    ∀ c ∈ ds.chars, c.isDigit = true ∨ c = '-' ∨ c = '.' := by
  intro c inside
  rw [chars_eq] at inside
  obtain inside | inside := List.mem_append.1 inside
  · exact (digit_or_minus integral c inside).imp_right .inl
  · split at inside
    · exact absurd inside List.not_mem_nil
    · obtain rfl | inside := List.mem_cons.1 inside
      · exact .inr (.inr rfl)
      · exact .inl (fraction c inside)

theorem units?_chars (integral : ∀ c ∈ ds.integral, c.isDigit = true)
    (fraction : ∀ c ∈ ds.fraction, c.isDigit = true) :
    units? (ds.sign ++ ds.whole ++ ds.fraction) = some ds.decimal.units := by
  obtain ⟨plain, negated⟩ := units?_digits
    (List.append_ne_nil_of_left_ne_nil ds.whole_ne_nil ds.fraction)
    (List.forall_mem_append.2 ⟨isDigit_whole integral, fraction⟩)
  obtain ⟨sign, units⟩ | ⟨sign, units⟩ := ds.sign_units
  · rw [sign, units]
    exact plain
  · rw [sign, units]
    exact negated

/-- The text of digits is read as the decimal with these digits. -/
theorem parse?_chars (integral : ∀ c ∈ ds.integral, c.isDigit = true)
    (fraction : ∀ c ∈ ds.fraction, c.isDigit = true)
    (fits : Word.holds ds.fraction.length = true) :
    parse? (String.ofList ds.chars) = some ds.decimal := by
  have marks := digit_or_mark integral fraction
  have untrimmed : trimChars ds.chars = ds.chars := by
    refine Floating.trimChars_eq fun c inside => ?_
    obtain digit | rfl | rfl := marks c inside
    · exact Floating.isBlank_of_isDigit digit
    · rfl
    · rfl
  have unmarked : splitExponent ds.chars = (ds.chars, none) := by
    have none : ds.chars.dropWhile (fun c => !(decide (c = 'e') || decide (c = 'E'))) = [] := by
      refine List.dropWhile_eq_nil_iff.2 fun c inside => ?_
      obtain digit | rfl | rfl := marks c inside
      · simp [Floating.ne_of_isDigit digit]
      · rfl
      · rfl
    rw [splitExponent, none]
  have point : takePoint ds.chars = (ds.sign ++ ds.whole ++ ds.fraction, ds.fraction.length) := by
    refine takePoint_append (fun inside => ?_) fraction
    obtain digit | minus := digit_or_minus integral '.' inside
    · exact absurd digit (by decide)
    · exact absurd minus (by decide)
  unfold parse?
  rw [String.toList_ofList, untrimmed, unmarked]
  dsimp only
  rw [point, units?_chars integral fraction]
  simp only [Option.elim_none, sub_zero, fits, if_true]
  rfl

end Digits

/-- The values of the groups of stored bytes, once the sign is taken out of them. -/
def groupValues (bytes : List UInt8) (precision scale : ℕ) : List ℕ :=
  (readGroups (folded (isNegative bytes) bytes) (allGroups precision scale)).1

/-- Bytes in which no group holds more than its digits can say, and which are not those of zero
with a minus sign. -/
structure Canonical (bytes : List UInt8) (precision scale : ℕ) : Prop where
  fits : List.Forall₂ (fun value digits => value < 10 ^ digits)
    (groupValues bytes precision scale) (allGroups precision scale)
  signed : isNegative bytes = true → ∃ value ∈ groupValues bytes precision scale, value ≠ 0

instance : Decidable (Canonical bytes precision scale) :=
  decidable_of_iff ((List.Forall₂ (fun value digits => value < 10 ^ digits)
      (groupValues bytes precision scale) (allGroups precision scale)) ∧
      (isNegative bytes = true → ∃ value ∈ groupValues bytes precision scale, value ≠ 0))
    ⟨fun ⟨fits, signed⟩ => ⟨fits, signed⟩, fun h => ⟨h.fits, h.signed⟩⟩

/-- A decimal in digits: a minus sign or none, at least one digit, and if there are places, a point
and at least as many digits behind it. -/
def Spelled (places : ℕ) (cs : List Char) : Prop :=
  ∃ sign whole point, cs = sign ++ whole ++ point ∧ (sign = [] ∨ sign = ['-']) ∧
    (whole ≠ [] ∧ ∀ c ∈ whole, c.isDigit = true) ∧
    if places = 0 then point = []
    else ∃ fraction, point = '.' :: fraction ∧ places ≤ fraction.length ∧
      ∀ c ∈ fraction, c.isDigit = true

theorem Canonical.fit (canonical : Canonical bytes precision scale) :
    Fit (groupValues bytes precision scale) (allGroups precision scale) := by
  refine (List.forall₂_iff_zip.2 ⟨canonical.fits.length_eq, fun inside => ?_⟩)
  have digits := (grouping_allGroups precision scale _ (List.of_mem_zip inside).2).1
  exact ⟨digits, (List.forall₂_iff_zip.1 canonical.fits).2 inside⟩

/-- What is read from bytes of the right number: digits only, at least as many behind the point as
there are places, and in all the digits of the groups. -/
structure Digits.ReadFrom (ds : Digits) (bytes : List UInt8) (precision scale : ℕ) : Prop where
  integral : ∀ c ∈ ds.integral, c.isDigit = true
  fraction : ∀ c ∈ ds.fraction, c.isDigit = true
  least : scale ≤ ds.fraction.length
  most : ds.fraction.length ≤ 10 * scale
  exact : Canonical bytes precision scale → ds.fraction.length = scale
  negative : ds.negative = isNegative bytes
  value : digitsValue (ds.integral ++ ds.fraction) =
    digitsValue (filled (groupValues bytes precision scale) (allGroups precision scale))

theorem exists_readDigits (width : bytes.length = packedSize precision scale) :
    ∃ ds, readDigits bytes precision scale = .ok ds ∧ ds.ReadFrom bytes precision scale := by
  refine ⟨_, readDigits_eq width rfl, ?_⟩
  have parts : readGroups (folded (isNegative bytes) bytes)
      (integralGroups precision scale ++ fractionGroups scale) = _ := readGroups_append
  generalize (readGroups (folded (isNegative bytes) bytes) (integralGroups precision scale)).2 =
    rest at parts ⊢
  have same := length_readGroups rest (fractionGroups scale)
  obtain ⟨least, most⟩ := length_filled_bounds same (grouping_fractionGroups scale)
    (length_digits_readGroups (grouping_fractionGroups scale))
  rw [sum_fractionGroups] at least most
  refine ⟨fun c inside => ?_, fun c inside => isDigit_filled inside, least, most,
    fun canonical => ?_, rfl, ?_⟩
  · exact isDigit_filled ((List.dropWhile_suffix _).subset inside)
  · have behind := List.forall₂_drop_append _ _ _ canonical.fit
    rw [groupValues, allGroups, parts, List.drop_left' (length_readGroups ..)] at behind
    rw [length_filled behind, sum_fractionGroups]
  · rw [groupValues, allGroups, parts, filled_append (length_readGroups ..), digitsValue_append,
      digitsValue_append, digitsValue_dropWhile]

theorem Digits.ReadFrom.spelled {ds : Digits} (h : ds.ReadFrom bytes precision scale) :
    Spelled scale ds.chars := by
  refine ⟨ds.sign, ds.whole, _, ds.chars_eq, ds.sign_units.imp And.left And.left,
    ⟨ds.whole_ne_nil, isDigit_whole h.integral⟩, ?_⟩
  have least := h.least
  have most := h.most
  by_cases none : scale = 0
  · have empty : ds.fraction = [] := List.length_eq_zero_iff.1 (by omega)
    rw [if_pos none, empty]
    rfl
  · have some : ¬ds.fraction.isEmpty = true := by
      rw [List.isEmpty_iff, ← List.length_eq_zero_iff]
      omega
    rw [if_neg none, if_neg some]
    exact ⟨ds.fraction, rfl, least, h.fraction⟩

/-- What is stored of a decimal is canonical. -/
theorem canonical_of_encode (encoded : d.encode precision scale = .ok bytes) :
    Canonical bytes precision scale := by
  obtain ⟨small, rfl⟩ := encode_eq_ok encoded
  have grouping := grouping_allGroups precision scale
  have sign := isNegative_signedBytes grouping small
  rw [signedBytes] at sign
  have values : groupValues (folded (decide (d.roundedUnits scale < 0))
      (magnitudeBytes (d.roundedUnits scale).natAbs (allGroups precision scale))) precision scale =
        splitGroups (d.roundedUnits scale).natAbs (allGroups precision scale) := by
    have read := readGroups_magnitudeBytes [] grouping small
    rw [List.append_nil] at read
    rw [groupValues, sign, folded_folded, read]
  constructor
  · rw [values]
    exact (fit_splitGroups grouping small).imp fun _ _ room => room.2
  · rw [sign, values]
    intro below
    by_contra none
    have zero := (digitsValue_filled_eq_zero_iff (length_splitGroups ..)).2
      fun value inside => by_contra fun some => none ⟨value, inside, some⟩
    rw [digitsValue_filled grouping small] at zero
    have := of_decide_eq_true below
    omega

theorem roundedUnits_self (same : d.scale = places) : d.roundedUnits places = d.units := by
  unfold roundedUnits
  split
  case isTrue zero => exact zero.symm
  case isFalse =>
    rw [if_pos (Int.le_of_eq same), same, Int.sub_self]
    exact Int.mul_one d.units

/-- A magnitude with the groups of bytes has these bytes, before its sign is folded in. -/
theorem magnitudeBytes_of_groupValues (width : bytes.length = packedSize precision scale)
    (split : splitGroups n (allGroups precision scale) = groupValues bytes precision scale) :
    magnitudeBytes n (allGroups precision scale) = folded (isNegative bytes) bytes := by
  have length : (folded (isNegative bytes) bytes).length =
      ((allGroups precision scale).map groupBytes).sum := by
    rw [length_folded, width, allGroups, sum_groupBytes]
  rw [magnitudeBytes, split]
  exact flatMap_readGroups length

/-- Canonical bytes are stored again from what is read from them. -/
theorem encode_of_canonical {ds : Digits} (width : bytes.length = packedSize precision scale)
    (h : ds.ReadFrom bytes precision scale) (canonical : Canonical bytes precision scale) :
    ds.decimal.encode precision scale = .ok bytes := by
  have signed := canonical.signed
  have nonzero := digitsValue_filled_eq_zero_iff canonical.fits.length_eq
  obtain ⟨small, split⟩ := splitGroups_digitsValue canonical.fit
  have units : ds.decimal.units = if isNegative bytes = true
      then -(digitsValue (ds.integral ++ ds.fraction) : ℤ)
      else digitsValue (ds.integral ++ ds.fraction) := by
    rw [← h.negative]
    rfl
  rw [h.value] at units
  generalize digitsValue (filled (groupValues bytes precision scale)
    (allGroups precision scale)) = n at small split nonzero units
  have magnitude : ds.decimal.units.natAbs = n := by
    rw [units]
    split <;> omega
  have sign : decide (ds.decimal.units < 0) = isNegative bytes := by
    rw [units]
    cases below : isNegative bytes with
    | false => exact decide_eq_false (by simp)
    | true =>
      obtain ⟨value, inside, some⟩ := signed below
      have positive : n ≠ 0 := fun zero => some (nonzero.1 zero value inside)
      exact decide_eq_true (by simpa using Nat.pos_of_ne_zero positive)
  have rounded : ds.decimal.roundedUnits scale = ds.decimal.units :=
    roundedUnits_self (congrArg Int.ofNat (h.exact canonical))
  obtain ⟨bytes', encoded⟩ : ∃ bytes', ds.decimal.encode precision scale = .ok bytes' :=
    exists_encode_eq_ok (by rwa [rounded, magnitude, ← sum_allGroups])
  obtain ⟨-, rfl⟩ := encode_eq_ok encoded
  rw [encoded, rounded, magnitude, sign, magnitudeBytes_of_groupValues width split, folded_folded]

/-- Any bytes of the right number are read, as a decimal and as a text that this decimal is read
from. It is stored as the same bytes again just if they are canonical. -/
theorem encode_decode_iff_canonical (width : bytes.length = packedSize precision scale)
    (byte : scale < 256) :
    ∃ text d, decodeText bytes precision scale = .ok text ∧ Spelled scale text.toList ∧
      parse? text = some d ∧ decode bytes precision scale = .ok d ∧
      (d.encode precision scale = .ok bytes ↔ Canonical bytes precision scale) := by
  obtain ⟨ds, read, found⟩ := exists_readDigits width
  have fits : Word.holds ds.fraction.length = true := by
    refine decide_eq_true ?_
    have most := found.most
    unfold Word.least Word.greatest
    omega
  refine ⟨String.ofList ds.chars, ds.decimal, ?_, ?_, ?_, ?_, canonical_of_encode,
    encode_of_canonical width found⟩
  · rw [decodeText, read]
    rfl
  · rw [String.toList_ofList]
    exact found.spelled
  · exact Digits.parse?_chars found.integral found.fraction fits
  · rw [decode, read]
    rfl

/-- A group of two digits has room for more than 99, and zero for a minus sign. -/
theorem encode_decode_iff_canonical_hundredths :
    packedSize 4 2 = 2 ∧
    (∃ d, decode [0x81, 0x63] 4 2 = .ok d ∧ d.encode 4 2 = .ok [0x81, 0x63]) ∧
    (∃ d, decode [0x81, 0x64] 4 2 = .ok d ∧ d.encode 4 2 ≠ .ok [0x81, 0x64]) ∧
    (∃ d, decode [0x7f, 0xff] 4 2 = .ok d ∧ d.encode 4 2 ≠ .ok [0x7f, 0xff]) := by
  refine ⟨rfl, ?_, ?_, ?_⟩
  · have width : ([0x81, 0x63] : List UInt8).length = packedSize 4 2 := rfl
    obtain ⟨_, d, -, -, -, read, again⟩ := encode_decode_iff_canonical width (by decide)
    exact ⟨d, read, again.2 (by decide +kernel)⟩
  · have width : ([0x81, 0x64] : List UInt8).length = packedSize 4 2 := rfl
    obtain ⟨_, d, -, -, -, read, again⟩ := encode_decode_iff_canonical width (by decide)
    exact ⟨d, read, mt again.1 (by decide +kernel)⟩
  · have width : ([0x7f, 0xff] : List UInt8).length = packedSize 4 2 := rfl
    obtain ⟨_, d, -, -, -, read, again⟩ := encode_decode_iff_canonical width (by decide)
    exact ⟨d, read, mt again.1 (by decide +kernel)⟩

end GroupedTables.Decimal
