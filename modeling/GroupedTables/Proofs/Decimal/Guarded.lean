import GroupedTables.Proofs.Decimal.Packed
import GroupedTables.Proofs.Machine

/-!
# Packed decimals, guarded

A packed decimal is read group by group, from where the group before it ended. What all groups
take together is what the bytes were checked against at the start, so no group reaches beyond the
bytes, whatever they are, and no group is too wide for its word.
-/

namespace GroupedTables.Decimal

open Machine

/-- Bytes that each number of digits of one group takes. -/
def groupWidths : List Nat := [0, 1, 1, 2, 2, 3, 3, 4, 4, 4]

namespace Guarded

def packedSize (precision scale : Nat) : Machine RowDefect Nat := do
  let whole := integralDigits precision scale
  let full ← mul (whole / fullGroup) 4
  let first ← entry groupWidths (whole % fullGroup)
  let places ← mul (scale / fullGroup) 4
  let last ← entry groupWidths (scale % fullGroup)
  add (← add full first) (← add places last)

/-- The value of the group at a place, and where it ends. -/
def readGroup (bytes : List UInt8) (place digits : Nat) : Machine RowDefect (Nat × Nat) := do
  let width ← entry groupWidths digits
  let cut ← slice bytes place (← add place width)
  return (← joinBytes 32 cut, ← add place width)

/-- The values of the groups from a place on, and where the last of them ends. -/
def readGroups (bytes : List UInt8) (place : Nat) : List Nat → Machine RowDefect (List Nat × Nat)
  | [] => return ([], place)
  | digits :: rest => do
    let (value, stop) ← readGroup bytes place digits
    let (values, stop) ← readGroups bytes stop rest
    return (value :: values, stop)

def readDigits (bytes : List UInt8) (precision scale : Nat) : Machine RowDefect Digits := do
  let expected ← packedSize precision scale
  if bytes.length ≠ expected then throw (.decimalWidth precision scale expected bytes.length)
  if bytes.isEmpty then return { negative := false, integral := [], fraction := [] }
  let negative := decide ((← entry bytes 0) < 0x80)
  let inverted := if negative then invertBytes bytes else bytes
  let plain := inverted.set 0 ((← entry inverted 0) ^^^ 0x80)
  let (integral, place) ← readGroups plain 0 (integralGroups precision scale)
  let (fraction, _) ← readGroups plain place (fractionGroups scale)
  -- the room that is made for the text
  let _ ← add precision 3
  return {
    negative
    integral := (filled integral (integralGroups precision scale)).dropWhile (· = '0')
    fraction := filled fraction (fractionGroups scale) }

/-- The text of a stored decimal. -/
def decodeText (bytes : List UInt8) (precision scale : Nat) : Machine RowDefect String :=
  (fun ds => String.ofList ds.chars) <$> readDigits bytes precision scale

def decode (bytes : List UInt8) (precision scale : Nat) : Machine RowDefect Decimal :=
  Digits.decimal <$> readDigits bytes precision scale

variable {bytes : List UInt8} {groups : List Nat} {place precision scale : Nat}

theorem groupWidths_eq {digits : Nat} (most : digits ≤ fullGroup) :
    groupWidths[digits]? = some (groupBytes digits) := by
  unfold fullGroup at most
  interval_cases digits <;> rfl

theorem gives_packedSize (most : precision < 256) (most' : scale < 256) :
    (packedSize precision scale).Gives (.ok (Decimal.packedSize precision scale)) := by
  have whole : integralDigits precision scale < 256 := by
    unfold integralDigits
    omega
  have rest (n : Nat) : n % fullGroup ≤ fullGroup := Nat.le_of_lt (Nat.mod_lt n (by decide))
  have first := groupBytes_le (rest (integralDigits precision scale))
  have last := groupBytes_le (rest scale)
  have full (n : Nat) (small : n < 256) : n / fullGroup * 4 < 256 := by
    unfold fullGroup
    omega
  have front := full _ whole
  have back := full _ most'
  have fits {n : Nat} (small : n < 1024) : n < Word.bound := by
    unfold Word.bound
    omega
  unfold packedSize Decimal.packedSize
  refine (gives_mul (fits (by omega))).step ((gives_entry (groupWidths_eq (rest _))).step ?_)
  refine (gives_mul (fits (by omega))).step ((gives_entry (groupWidths_eq (rest _))).step ?_)
  refine (gives_add (fits (by omega))).step ((gives_add (fits (by omega))).step ?_)
  exact gives_add (fits (by omega))

theorem gives_readGroup {digits : Nat} (small : bytes.length < Word.bound)
    (most : digits ≤ fullGroup) (inside : place + groupBytes digits ≤ bytes.length) :
    (readGroup bytes place digits).Gives
      (.ok (ofBigEndian ((bytes.drop place).take (groupBytes digits)),
        place + groupBytes digits)) := by
  have fits := Nat.lt_of_le_of_lt inside small
  have narrow := groupBytes_le most
  have joined : (joinBytes 32 (Record.span bytes place (groupBytes digits))).Gives
      (ε := RowDefect) (.ok (ofBigEndian ((bytes.drop place).take (groupBytes digits)))) := by
    refine gives_joinBytes (by decide) ?_
    rw [Record.span, List.length_take]
    omega
  refine (gives_entry (groupWidths_eq most)).step ((gives_add fits).step ?_)
  refine (gives_slice (Nat.le_add_right ..) inside).step ?_
  rw [Nat.add_sub_cancel_left]
  exact joined.step ((gives_add fits).step (gives_pure _))

/-- The groups are those that are read off the front of the bytes one after the other. -/
theorem gives_readGroups (small : bytes.length < Word.bound) (grouping : Grouping groups)
    (inside : place + (groups.map groupBytes).sum ≤ bytes.length) :
    (readGroups bytes place groups).Gives
      (.ok ((Decimal.readGroups (bytes.drop place) groups).1,
        place + (groups.map groupBytes).sum)) := by
  induction groups generalizing place with
  | nil => exact gives_pure _
  | cons digits rest ih =>
    rw [List.map_cons, List.sum_cons] at inside ⊢
    obtain ⟨-, most⟩ := grouping digits (.head _)
    refine (gives_readGroup small most (by omega)).step ?_
    have later : place + groupBytes digits + (rest.map groupBytes).sum ≤ bytes.length := by omega
    refine (ih (fun g inside => grouping g (.tail _ inside)) later).step ?_
    rw [Decimal.readGroups, List.drop_drop, Nat.add_assoc]
    exact gives_pure _

theorem readGroups_snd (bytes : List UInt8) (groups : List Nat) :
    (Decimal.readGroups bytes groups).2 = bytes.drop (groups.map groupBytes).sum := by
  induction groups generalizing bytes with
  | nil => rfl
  | cons digits rest ih => rw [Decimal.readGroups, ih, List.map_cons, List.sum_cons, List.drop_drop]

/-- No bytes are no groups. -/
theorem eq_nil_of_grouping (grouping : Grouping groups) (none : (groups.map groupBytes).sum = 0) :
    groups = [] := by
  cases groups with
  | nil => rfl
  | cons digits rest =>
    obtain ⟨some, most⟩ := grouping digits (.head _)
    have width := (pow_le_of_group some most).1
    rw [List.map_cons, List.sum_cons] at none
    omega

theorem gives_readDigits (small : bytes.length < Word.bound) (most : precision < 256)
    (most' : scale < 256) :
    (readDigits bytes precision scale).Gives (Decimal.readDigits bytes precision scale) := by
  by_cases width : bytes.length = Decimal.packedSize precision scale
  case neg =>
    have plainly : Decimal.readDigits bytes precision scale =
        .error (.decimalWidth precision scale (Decimal.packedSize precision scale) bytes.length) :=
      if_pos width
    rw [plainly]
    refine (gives_packedSize most most').step ?_
    rw [if_pos width]
    rfl
  rw [readDigits_eq width rfl]
  refine (gives_packedSize most most').step ?_
  rw [if_neg (not_not.2 width)]
  have total := sum_groupBytes precision scale
  rw [← width, List.map_append, List.sum_append] at total
  cases bytes with
  | nil =>
    obtain ⟨front, back⟩ := Nat.add_eq_zero_iff.1 total
    rw [eq_nil_of_grouping (grouping_integralGroups precision scale) front,
      eq_nil_of_grouping (grouping_fractionGroups scale) back]
    exact gives_pure _
  | cons b rest =>
    obtain ⟨c, others, inverted⟩ : ∃ c others, (if decide (b < 0x80) = true then
        invertBytes (b :: rest) else b :: rest) = c :: others := by
      split <;> exact ⟨_, _, rfl⟩
    have plain :
        (c :: others).set 0 (c ^^^ 0x80) = folded (isNegative (b :: rest)) (b :: rest) := by
      rw [folded, isNegative, inverted]
      rfl
    have length := length_folded (isNegative (b :: rest)) (b :: rest)
    rw [if_neg (by simp)]
    refine (gives_entry rfl).step ((gives_entry (a := c) (by rw [inverted]; rfl)).step ?_)
    rw [inverted, plain]
    refine (gives_readGroups (length ▸ small) (grouping_integralGroups precision scale) ?_).step ?_
    · omega
    refine (gives_readGroups (length ▸ small) (grouping_fractionGroups scale) ?_).step ?_
    · omega
    rw [readGroups_snd, Nat.zero_add]
    refine (gives_add ?_).step (gives_pure _)
    unfold Word.bound
    omega

theorem gives_decodeText (small : bytes.length < Word.bound) (most : precision < 256)
    (most' : scale < 256) :
    (decodeText bytes precision scale).Gives (Decimal.decodeText bytes precision scale) :=
  (gives_readDigits small most most').map

theorem gives_decode (small : bytes.length < Word.bound) (most : precision < 256)
    (most' : scale < 256) :
    (decode bytes precision scale).Gives (Decimal.decode bytes precision scale) :=
  (gives_readDigits small most most').map

end Guarded

end GroupedTables.Decimal
