import GroupedTables.Text.Bytes
import Mathlib.Order.Bounds.Basic

/-!
# Text read back from its bytes

The first byte of a character tells how many bytes it takes, and each byte after it adds six
bits. So a character is found in front of whatever follows it, and a text is found again one
character after the other.

Nothing else is found: what is taken for a character has the bytes of that character. Bytes that
are no text therefore stop the reading at the one place where no text goes further.
-/

namespace GroupedTables.Text

variable {c : Char} {least n done fuel : Nat} {bytes rest : List UInt8}

theorem toNat_byte (small : n < 256) : (UInt8.ofNat n).toNat = n := by
  rw [UInt8.toNat_ofNat', Nat.mod_eq_of_lt small]

/-- The number of a character is taken for the character, in as many bytes as it needs. -/
theorem charFrom?_val (enough : least ≤ c.val.toNat) : charFrom? least c.val.toNat = some c := by
  have valid : c.val.toNat.isValidChar := c.valid
  rw [charFrom?, dif_pos ⟨valid, enough⟩]
  exact congrArg some (Char.ext (UInt32.toNat_inj.1 rfl))

/-- A byte that continues a character adds its six bits. -/
theorem continued?_byte {bits : Nat} (small : bits < 64) :
    continued? n (UInt8.ofNat (bits + 128)) = some (n * 64 + bits) := by
  rw [continued?, toNat_byte (by omega), if_pos (by omega), Nat.add_sub_cancel]

/-- Bytes that hold the bits of a character, the first ones first: seven bits in a single byte, or
six in every byte but the first, which tells how many there are. Fewer bytes have no room. -/
inductive Encoded (c : Char) : List UInt8 → Prop
  | one {x : Nat} (value : c.val.toNat = x) (small : x < 128) : Encoded c [UInt8.ofNat x]
  | two {x y : Nat} (value : c.val.toNat = x * 64 + y) (least : 0x80 ≤ x * 64 + y) (x_lt : x < 32)
    (y_lt : y < 64) : Encoded c [UInt8.ofNat (x + 192), UInt8.ofNat (y + 128)]
  | three {x y z : Nat} (value : c.val.toNat = (x * 64 + y) * 64 + z)
    (least : 0x800 ≤ (x * 64 + y) * 64 + z) (x_lt : x < 16) (y_lt : y < 64) (z_lt : z < 64) :
    Encoded c [UInt8.ofNat (x + 224), UInt8.ofNat (y + 128), UInt8.ofNat (z + 128)]
  | four {x y z w : Nat} (value : c.val.toNat = ((x * 64 + y) * 64 + z) * 64 + w)
    (least : 0x10000 ≤ ((x * 64 + y) * 64 + z) * 64 + w) (x_lt : x < 8) (y_lt : y < 64)
    (z_lt : z < 64) (w_lt : w < 64) :
    Encoded c [UInt8.ofNat (x + 240), UInt8.ofNat (y + 128), UInt8.ofNat (z + 128),
      UInt8.ofNat (w + 128)]

theorem Encoded.eq (h : Encoded c bytes) : charBytes c = bytes := by
  unfold charBytes String.utf8EncodeChar
  dsimp only
  cases h with
  | one value small => rw [value, if_pos (by omega)]
  | @two x y value least =>
    have first : (x * 64 + y) / 64 % 32 = x := by omega
    have second : (x * 64 + y) % 64 = y := by omega
    rw [value, if_neg (by omega), if_pos (by omega), first, second]
  | @three x y z value least =>
    have first : ((x * 64 + y) * 64 + z) / 4096 % 16 = x := by omega
    have second : ((x * 64 + y) * 64 + z) / 64 % 64 = y := by omega
    have third : ((x * 64 + y) * 64 + z) % 64 = z := by omega
    rw [value, if_neg (by omega), if_neg (by omega), if_pos (by omega), first, second, third]
  | @four x y z w value least =>
    have first : (((x * 64 + y) * 64 + z) * 64 + w) / 262144 % 8 = x := by omega
    have second : (((x * 64 + y) * 64 + z) * 64 + w) / 4096 % 64 = y := by omega
    have third : (((x * 64 + y) * 64 + z) * 64 + w) / 64 % 64 = z := by omega
    have fourth : (((x * 64 + y) * 64 + z) * 64 + w) % 64 = w := by omega
    rw [value, if_neg (by omega), if_neg (by omega), if_neg (by omega), first, second, third,
      fourth]

theorem encoded_charBytes (c : Char) : Encoded c (charBytes c) := by
  have valid : c.val.toNat.isValidChar := c.valid
  have bound : c.val.toNat < 1114112 := by unfold Nat.isValidChar at valid; omega
  have of_encoded {bytes : List UInt8} (h : Encoded c bytes) : Encoded c (charBytes c) := h.eq ▸ h
  have two : c.val.toNat = c.val.toNat / 64 * 64 + c.val.toNat % 64 := by omega
  have three : c.val.toNat =
      (c.val.toNat / 4096 * 64 + c.val.toNat / 64 % 64) * 64 + c.val.toNat % 64 := by omega
  have four : c.val.toNat =
      ((c.val.toNat / 262144 * 64 + c.val.toNat / 4096 % 64) * 64 + c.val.toNat / 64 % 64) * 64 +
        c.val.toNat % 64 := by omega
  by_cases small : c.val.toNat < 0x80
  · exact of_encoded (.one rfl small)
  by_cases small : c.val.toNat < 0x800
  · exact of_encoded (.two two (by omega) (by omega) (by omega))
  by_cases small : c.val.toNat < 0x10000
  · exact of_encoded (.three three (by omega) (by omega) (by omega) (by omega))
  · exact of_encoded (.four four (by omega) (by omega) (by omega) (by omega) (by omega))

/-- The number of a character is found in its bytes. -/
theorem Encoded.firstChar?_append (h : Encoded c bytes) (rest : List UInt8) :
    firstChar? (bytes ++ rest) = some (c, bytes.length) := by
  have found (least : Nat) (enough : least ≤ c.val.toNat) := charFrom?_val (c := c) enough
  cases h with
  | @one x value small =>
    rw [value] at found
    simp only [List.cons_append, List.nil_append, firstChar?, toNat_byte (show x < 256 by omega)]
    rw [if_pos small, found 0 (Nat.zero_le _)]
    rfl
  | @two x y value least x_lt y_lt =>
    rw [value] at found
    simp only [List.cons_append, List.nil_append, firstChar?,
      toNat_byte (show x + 192 < 256 by omega)]
    rw [if_neg (by omega), if_neg (by omega), if_pos (by omega), Nat.add_sub_cancel]
    simp only [bind, Option.bind, continued?_byte y_lt, found 0x80 least, pure, List.length_cons,
      List.length_nil]
  | @three x y z value least x_lt y_lt z_lt =>
    rw [value] at found
    simp only [List.cons_append, List.nil_append, firstChar?,
      toNat_byte (show x + 224 < 256 by omega)]
    rw [if_neg (by omega), if_neg (by omega), if_neg (by omega), if_pos (by omega),
      Nat.add_sub_cancel]
    simp only [bind, Option.bind, continued?_byte y_lt, continued?_byte z_lt, found 0x800 least,
      pure, List.length_cons, List.length_nil]
  | @four x y z w value least x_lt y_lt z_lt w_lt =>
    rw [value] at found
    simp only [List.cons_append, List.nil_append, firstChar?,
      toNat_byte (show x + 240 < 256 by omega)]
    rw [if_neg (by omega), if_neg (by omega), if_neg (by omega), if_neg (by omega),
      if_pos (by omega), Nat.add_sub_cancel]
    simp only [bind, Option.bind, continued?_byte y_lt, continued?_byte z_lt, continued?_byte w_lt,
      found 0x10000 least, pure, List.length_cons, List.length_nil]

/-- A character is found in front of what follows it. -/
theorem firstChar?_charBytes (c : Char) (rest : List UInt8) :
    firstChar? (charBytes c ++ rest) = some (c, (charBytes c).length) :=
  (encoded_charBytes c).firstChar?_append rest

theorem val_of_charFrom? (found : charFrom? least n = some c) : c.val.toNat = n ∧ least ≤ n := by
  by_cases valid : n.isValidChar ∧ least ≤ n
  · rw [charFrom?, dif_pos valid] at found
    cases found
    exact ⟨rfl, valid.2⟩
  · rw [charFrom?, dif_neg valid] at found
    cases found

theorem bits_of_continued? {b : UInt8} {m : Nat} (found : continued? n b = some m) :
    ∃ bits, bits < 64 ∧ b = UInt8.ofNat (bits + 128) ∧ m = n * 64 + bits := by
  unfold continued? at found
  split at found
  case isTrue within =>
    refine ⟨b.toNat - 128, by omega, ?_, (Option.some.inj found).symm⟩
    rw [Nat.sub_add_cancel within.1, UInt8.ofNat_toNat]
  case isFalse => cases found

/-- What is found at the front is in bytes that hold its bits. -/
theorem encoded_of_firstChar? (found : firstChar? bytes = some (c, n)) :
    ∃ front rest, bytes = front ++ rest ∧ Encoded c front ∧ n = front.length := by
  have restored {a : UInt8} {base : Nat} (above : base ≤ a.toNat) :
      UInt8.ofNat (a.toNat - base + base) = a := by
    rw [Nat.sub_add_cancel above, UInt8.ofNat_toNat]
  cases bytes with
  | nil => cases found
  | cons a rest =>
    unfold firstChar? at found
    dsimp only at found
    split at found
    case isTrue one =>
      obtain ⟨d, whole, same⟩ := Option.map_eq_some_iff.1 found
      cases same
      obtain ⟨value, -⟩ := val_of_charFrom? whole
      refine ⟨_, rest, ?_, .one value one, rfl⟩
      rw [UInt8.ofNat_toNat, List.singleton_append]
    split at found
    · cases found
    split at found
    case isTrue two =>
      obtain _ | ⟨b, rest⟩ := rest
      · cases found
      · simp only [Option.bind_eq_bind, Option.bind_eq_some_iff, Option.pure_def,
          Option.some.injEq, Prod.mk.injEq] at found
        obtain ⟨n, second, d, whole, rfl, rfl⟩ := found
        obtain ⟨y, small, rfl, rfl⟩ := bits_of_continued? second
        obtain ⟨value, least⟩ := val_of_charFrom? whole
        refine ⟨_, rest, ?_, .two value least (by omega) small, rfl⟩
        rw [restored (by omega)]
        rfl
    split at found
    case isTrue three =>
      obtain _ | ⟨b, _ | ⟨b', rest⟩⟩ := rest
      · cases found
      · cases found
      · simp only [Option.bind_eq_bind, Option.bind_eq_some_iff, Option.pure_def,
          Option.some.injEq, Prod.mk.injEq] at found
        obtain ⟨n, second, n', third, d, whole, rfl, rfl⟩ := found
        obtain ⟨y, small, rfl, rfl⟩ := bits_of_continued? second
        obtain ⟨z, small', rfl, rfl⟩ := bits_of_continued? third
        obtain ⟨value, least⟩ := val_of_charFrom? whole
        refine ⟨_, rest, ?_, .three value least (by omega) small small', rfl⟩
        rw [restored (by omega)]
        rfl
    split at found
    case isTrue four =>
      obtain _ | ⟨b, _ | ⟨b', _ | ⟨b'', rest⟩⟩⟩ := rest
      · cases found
      · cases found
      · cases found
      · simp only [Option.bind_eq_bind, Option.bind_eq_some_iff, Option.pure_def,
          Option.some.injEq, Prod.mk.injEq] at found
        obtain ⟨n, second, n', third, n'', fourth, d, whole, rfl, rfl⟩ := found
        obtain ⟨y, small, rfl, rfl⟩ := bits_of_continued? second
        obtain ⟨z, small', rfl, rfl⟩ := bits_of_continued? third
        obtain ⟨w, small'', rfl, rfl⟩ := bits_of_continued? fourth
        obtain ⟨value, least⟩ := val_of_charFrom? whole
        refine ⟨_, rest, ?_, .four value least (by omega) small small' small'', rfl⟩
        rw [restored (by omega)]
        rfl
    · cases found

/-- What is found at the front has the bytes of a character. -/
theorem charBytes_of_firstChar? (found : firstChar? bytes = some (c, n)) :
    ∃ rest, bytes = charBytes c ++ rest ∧ n = (charBytes c).length := by
  obtain ⟨front, rest, cut, encoded, rfl⟩ := encoded_of_firstChar? found
  exact ⟨rest, encoded.eq ▸ cut, encoded.eq ▸ rfl⟩

theorem charBytes_ne_nil (c : Char) : charBytes c ≠ [] := by
  intro none
  have found := firstChar?_charBytes c []
  rw [none] at found
  cases found

/-- As many steps as there are bytes are enough for all characters. -/
theorem charsWithin_flatMap_charBytes (chars : List Char) {fuel : Nat}
    (enough : chars.length ≤ fuel) :
    charsWithin fuel done (chars.flatMap charBytes) = .ok chars := by
  induction chars generalizing fuel done with
  | nil => cases fuel <;> rfl
  | cons c rest ih =>
    obtain ⟨fuel, rfl⟩ : ∃ more, fuel = more + 1 := ⟨fuel - 1, by simp at enough; omega⟩
    have later : charsWithin fuel (done + (charBytes c).length) (rest.flatMap charBytes) =
        .ok rest := ih (by simpa using enough)
    obtain ⟨b, others, bytes⟩ := List.exists_cons_of_ne_nil (charBytes_ne_nil c)
    have split : (c :: rest).flatMap charBytes = b :: (others ++ rest.flatMap charBytes) := by
      rw [List.flatMap_cons, bytes, List.cons_append]
    have first := firstChar?_charBytes c (rest.flatMap charBytes)
    have dropped : (b :: (others ++ rest.flatMap charBytes)).drop (charBytes c).length =
        rest.flatMap charBytes := by
      rw [← List.cons_append, ← bytes, List.drop_left]
    rw [bytes, List.cons_append, ← bytes] at first
    rw [split, charsWithin]
    simp only [first, dropped, later]
    rfl

theorem length_le_flatMap_charBytes (chars : List Char) :
    chars.length ≤ (chars.flatMap charBytes).length := by
  induction chars with
  | nil => exact Nat.le_refl _
  | cons c rest ih =>
    have one := List.length_pos_iff.2 (charBytes_ne_nil c)
    rw [List.length_cons, List.flatMap_cons, List.length_append]
    omega

/-- Writing a text as bytes and reading them gives the text. -/
theorem ofBytes_textBytes (s : String) : ofBytes (textBytes s) = .ok s := by
  rw [ofBytes, textBytes, charsWithin_flatMap_charBytes _ (length_le_flatMap_charBytes _)]
  exact congrArg Except.ok (String.ofList_toList ..)

/-- The characters read have the bytes they were read from. -/
theorem flatMap_charBytes_of_charsWithin {chars : List Char}
    (read : charsWithin fuel done bytes = .ok chars) : chars.flatMap charBytes = bytes := by
  induction fuel generalizing done bytes chars with
  | zero => cases bytes <;> cases read; rfl
  | succ fuel ih =>
    obtain _ | ⟨b, others⟩ := bytes
    · cases read; rfl
    rw [charsWithin] at read
    split at read
    · cases read
    next c n found =>
      obtain ⟨rest, split, rfl⟩ := charBytes_of_firstChar? found
      rw [split, List.drop_left] at read
      cases later : charsWithin fuel (done + (charBytes c).length) rest with
      | error n => rw [later] at read; cases read
      | ok more =>
        rw [later] at read
        cases read
        rw [List.flatMap_cons, ih later, split]

/-- The reading stops in front of the first bytes that are no character. -/
theorem stuck_of_charsWithin (enough : bytes.length ≤ fuel)
    (stopped : charsWithin fuel done bytes = .error n) :
    ∃ (chars : List Char) (rest : List UInt8), bytes = chars.flatMap charBytes ++ rest ∧
      firstChar? rest = none ∧ n = done + (chars.flatMap charBytes).length := by
  induction fuel generalizing done bytes with
  | zero =>
    cases List.length_eq_zero_iff.1 (Nat.le_zero.1 enough)
    cases stopped
  | succ fuel ih =>
    obtain _ | ⟨b, others⟩ := bytes
    · cases stopped
    rw [charsWithin] at stopped
    split at stopped
    next none =>
      cases stopped
      exact ⟨[], _, rfl, none, rfl⟩
    next c n found =>
      obtain ⟨rest, split, rfl⟩ := charBytes_of_firstChar? found
      rw [split, List.drop_left] at stopped
      have fewer : rest.length ≤ fuel := by
        have one := List.length_pos_iff.2 (charBytes_ne_nil c)
        rw [split, List.length_append] at enough
        omega
      cases later : charsWithin fuel (done + (charBytes c).length) rest with
      | ok more => rw [later] at stopped; cases stopped
      | error m =>
        rw [later] at stopped
        cases stopped
        obtain ⟨chars, last, whole, stuck, rfl⟩ := ih fewer later
        refine ⟨c :: chars, last, ?_, stuck, ?_⟩
        · rw [split, whole, List.flatMap_cons, List.append_assoc]
        · rw [List.flatMap_cons, List.length_append, Nat.add_assoc]

/-- No text goes further than to the first bytes that are no character. -/
theorem length_le_of_stuck (stuck : firstChar? rest = none) (chars others : List Char)
    (front : others.flatMap charBytes <+: chars.flatMap charBytes ++ rest) :
    (others.flatMap charBytes).length ≤ (chars.flatMap charBytes).length := by
  induction chars generalizing others with
  | nil =>
    obtain _ | ⟨c, others⟩ := others
    · exact Nat.le_refl _
    · obtain ⟨tail, whole⟩ := front
      rw [List.flatMap_nil, List.nil_append, List.flatMap_cons, List.append_assoc] at whole
      rw [← whole, firstChar?_charBytes] at stuck
      cases stuck
  | cons c chars ih =>
    obtain _ | ⟨d, others⟩ := others
    · exact Nat.zero_le _
    · simp only [List.flatMap_cons, List.append_assoc, List.length_append] at front ⊢
      obtain ⟨tail, whole⟩ := front
      have first := congrArg firstChar? whole
      rw [List.append_assoc, firstChar?_charBytes, firstChar?_charBytes] at first
      cases first
      rw [List.append_assoc, List.append_cancel_left_eq] at whole
      exact Nat.add_le_add_left (ih others ⟨tail, whole⟩) _

def frontLengths (bytes : List UInt8) : Set Nat :=
  {k | ∃ text, textBytes text <+: bytes ∧ (textBytes text).length = k}

theorem textBytes_ofList (chars : List Char) :
    textBytes (String.ofList chars) = chars.flatMap charBytes := by
  rw [textBytes, String.toList_ofList]

/-- Bytes are read as a text when they are the bytes of it. -/
theorem ofBytes_eq_ok_iff {text : String} : ofBytes bytes = .ok text ↔ textBytes text = bytes := by
  constructor
  · intro read
    unfold ofBytes at read
    cases found : charsWithin bytes.length 0 bytes with
    | error n => rw [found] at read; cases read
    | ok chars =>
      rw [found] at read
      cases read
      rw [textBytes_ofList, flatMap_charBytes_of_charsWithin found]
  · rintro rfl
    exact ofBytes_textBytes text

theorem isGreatest_of_ofBytes (stopped : ofBytes bytes = .error n) :
    IsGreatest (frontLengths bytes) n := by
  unfold ofBytes at stopped
  cases found : charsWithin bytes.length 0 bytes with
  | ok chars => rw [found] at stopped; cases stopped
  | error m =>
    rw [found] at stopped
    cases stopped
    obtain ⟨chars, rest, whole, stuck, rfl⟩ := stuck_of_charsWithin (Nat.le_refl _) found
    rw [Nat.zero_add]
    constructor
    · exact ⟨String.ofList chars, by rw [textBytes_ofList, whole]; exact List.prefix_append _ _,
        by rw [textBytes_ofList]⟩
    · rintro k ⟨text, front, rfl⟩
      rw [whole] at front
      exact length_le_of_stuck stuck chars text.toList front

/-- Bytes that are no text are reported with the most bytes at the front that are one. -/
theorem ofBytes_eq_error_iff : ofBytes bytes = .error n ↔
    (∀ text, textBytes text ≠ bytes) ∧ IsGreatest (frontLengths bytes) n := by
  constructor
  · intro stopped
    refine ⟨?_, isGreatest_of_ofBytes stopped⟩
    rintro text rfl
    rw [ofBytes_textBytes] at stopped
    cases stopped
  · rintro ⟨none, greatest⟩
    cases read : ofBytes bytes with
    | ok text => exact absurd (ofBytes_eq_ok_iff.1 read) (none text)
    | error m => rw [(isGreatest_of_ofBytes read).unique greatest]

end GroupedTables.Text
