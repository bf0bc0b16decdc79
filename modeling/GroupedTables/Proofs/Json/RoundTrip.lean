import GroupedTables.Json.Parser
import GroupedTables.Json.Printer
import GroupedTables.Proofs.Text.Digits

/-!
# Reading what was written

A value that is written as text is found again in the text, whatever characters its texts are
made of. What cannot come back is what is not written as itself: a text that cannot be read, a
number given by its spelling, and a key that claims to have been spelled in another way than
it is written in.

A value is read with what follows it, so what is shown of each value is that it is read off the
front of a longer text. A number would run on into digits, a point or an exponent; inside a
text it is followed by what ends an item.
-/

namespace GroupedTables.Json

open Text

variable {c : Char} {cs rest : List Char} {v : Json} {fuel n : Nat}

theorem hexValue?_smallHexDigit : ∀ d < 16, hexValue? (smallHexDigit d) = some d := by decide

/-- An escape of sixteen bits names the control it was written for. -/
theorem fourHex?_control (control : n < 32) :
    fourHex? '0' '0' (smallHexDigit (n / 16)) (smallHexDigit (n % 16)) = some n := by
  have high : n / 16 < 16 := by omega
  have low : n % 16 < 16 := by omega
  simp only [fourHex?, hexValue?_smallHexDigit _ high, hexValue?_smallHexDigit _ low,
    show hexValue? '0' = some 0 from rfl]
  exact congrArg some (by omega)

theorem escapeChar_of_plain (quote : c ≠ '"') (backslash : c ≠ '\\') (visible : ¬c.toNat < 32) :
    escapeChar c = [c] := by
  have other {d : Char} (control : d.toNat < 32) : c ≠ d := by rintro rfl; exact visible control
  rw [escapeChar, if_neg quote, if_neg backslash, if_neg (by omega), if_neg (by omega),
    if_neg (other (by decide)), if_neg (other (by decide)), if_neg (other (by decide)),
    if_neg visible]

/-- A character is written by a short escape, as a control by its number, or as it stands. -/
theorem escapeChar_cases (c : Char) :
    (∃ e, escapeChar c = ['\\', e] ∧ shortEscape? e = some c.toNat) ∨
    (c.toNat < 32 ∧ escapeChar c = ['\\', 'u', '0', '0', smallHexDigit (c.toNat / 16),
      smallHexDigit (c.toNat % 16)]) ∨
    (escapeChar c = [c] ∧ c ≠ '"' ∧ c ≠ '\\' ∧ ¬c.toNat < 32) := by
  by_cases quote : c = '"'
  · exact .inl ⟨'"', by rw [quote]; rfl, by rw [quote]; rfl⟩
  by_cases backslash : c = '\\'
  · exact .inl ⟨'\\', by rw [backslash]; rfl, by rw [backslash]; rfl⟩
  by_cases visible : ¬c.toNat < 32
  · exact .inr (.inr ⟨escapeChar_of_plain quote backslash visible, quote, backslash, visible⟩)
  -- the controls: some have a short escape, the rest are left with their number
  rw [escapeChar, if_neg quote, if_neg backslash]
  by_cases backspace : c.toNat = 8
  · exact .inl ⟨'b', if_pos backspace, congrArg some backspace.symm⟩
  by_cases feed : c.toNat = 12
  · exact .inl ⟨'f', by rw [if_neg backspace, if_pos feed], congrArg some feed.symm⟩
  rw [if_neg backspace, if_neg feed]
  by_cases line : c = '\n'
  · exact .inl ⟨'n', if_pos line, by rw [line]; rfl⟩
  by_cases carriage : c = '\r'
  · exact .inl ⟨'r', by rw [if_neg line, if_pos carriage], by rw [carriage]; rfl⟩
  by_cases tab : c = '\t'
  · exact .inl ⟨'t', by rw [if_neg line, if_neg carriage, if_pos tab], by rw [tab]; rfl⟩
  have control := not_not.1 visible
  exact .inr (.inl ⟨control, by
    rw [if_neg line, if_neg carriage, if_neg tab, if_pos control]⟩)

theorem textUnits_short {e : Char} (short : shortEscape? e = some n) (rest : List Char) :
    textUnits ('\\' :: e :: rest) = (textUnits rest).map fun read => (n :: read.1, read.2) := by
  have other : e ≠ 'u' := by rintro rfl; cases short
  rw [textUnits, short]
  · cases textUnits rest <;> rfl
  · exact fun _ _ _ _ _ same => absurd same other

/-- A character is read off the front of a text as the number it has. -/
theorem textUnits_escapeChar (c : Char) (rest : List Char) :
    textUnits (escapeChar c ++ rest) =
      (textUnits rest).map fun read => (c.toNat :: read.1, read.2) := by
  obtain ⟨e, written, short⟩ | ⟨control, written⟩ | ⟨written, quote, backslash, control⟩ :=
    escapeChar_cases c
  · rw [written]
    exact textUnits_short short rest
  · simp only [written, List.cons_append, List.nil_append, textUnits, fourHex?_control control]
    cases textUnits rest <;> rfl
  · rw [written, List.singleton_append, textUnits, if_neg control]
    · cases textUnits rest <;> rfl
    · exact fun same => absurd same quote
    · exact fun _ _ _ _ _ same => absurd same backslash
    · exact fun _ _ same => absurd same backslash

theorem textUnits_flatMap (cs rest : List Char) :
    textUnits (cs.flatMap escapeChar ++ '"' :: rest) = some (cs.map Char.toNat, rest) := by
  induction cs with
  | nil => rfl
  | cons c cs ih =>
    rw [List.flatMap_cons, List.append_assoc, textUnits_escapeChar, ih]
    rfl

theorem joinUnits_cons (c : Char) (units : List Nat) :
    joinUnits (c.toNat :: units) = (joinUnits units).map (c :: ·) := by
  have whole : c.toNat < 0xD800 ∨ 0xDFFF < c.toNat := by
    obtain below | ⟨above, _⟩ := c.valid
    · exact .inl below
    · exact .inr above
  have high : isHighHalf c.toNat = false := by simp [isHighHalf]; omega
  have low : isLowHalf c.toNat = false := by simp [isLowHalf]; omega
  cases units with
  | nil => simp [joinUnits, high, low]
  | cons m units => simp [joinUnits, high, low]

theorem joinUnits_map (cs : List Char) : joinUnits (cs.map Char.toNat) = some cs := by
  induction cs with
  | nil => rfl
  | cons c cs ih => rw [List.map_cons, joinUnits_cons, ih, Option.map_some]

theorem textBody_quoted (text : String) (rest : List Char) :
    textBody (text.toList.flatMap escapeChar ++ '"' :: rest) = some (some text, rest) := by
  rw [textBody, textUnits_flatMap]
  simp [joinUnits_map]

def escapes (c : Char) : Bool := escapeChar c != [c]

/-- A key says of itself how it is spelled where it is written. -/
def Key.Honest (k : Key) : Prop := k.escaped = k.text.toList.any escapes

instance (k : Key) : Decidable k.Honest := inferInstanceAs (Decidable (_ = _))

theorem escapes_of_isDigit (digit : c.isDigit = true) : escapes c = false := by
  have visible : ¬c.toNat < 32 := by have := bounds_of_isDigit digit; omega
  have quote : c ≠ '"' := by rintro rfl; exact absurd digit (by decide)
  have backslash : c ≠ '\\' := by rintro rfl; exact absurd digit (by decide)
  rw [escapes, escapeChar_of_plain quote backslash visible, bne_self_eq_false]

theorem hasEscape_flatMap (cs rest : List Char) :
    hasEscape (cs.flatMap escapeChar ++ '"' :: rest) = cs.any escapes := by
  induction cs with
  | nil => rfl
  | cons c cs ih =>
    rw [List.flatMap_cons, List.append_assoc, List.any_cons]
    obtain ⟨e, written, _⟩ | ⟨_, written⟩ | ⟨written, quote, backslash, _⟩ := escapeChar_cases c
    · simp [escapes, written, hasEscape]
    · simp [escapes, written, hasEscape]
    · simp [escapes, written, hasEscape, quote, ← ih, Ne.symm backslash]

theorem keyBody_quoted (text : String) (rest : List Char) :
    keyBody (text.toList.flatMap escapeChar ++ '"' :: rest) =
      some (some { text, escaped := text.toList.any escapes }, rest) := by
  rw [keyBody, textBody_quoted, hasEscape_flatMap]
  rfl

/-- Nothing follows that could go on with a number. -/
def Ends (rest : List Char) : Prop := ∀ c ∈ rest.head?, c = ',' ∨ c = ']' ∨ c = '\x7d'

theorem Ends.someDigits_digits (ends : Ends rest) (n : Nat) :
    someDigits (digits n ++ rest) = some (digits n, rest) := by
  have run : ∀ c ∈ digits n, c.isDigit = true := fun c inside => isDigit_digits inside
  have stop : rest.takeWhile Char.isDigit = [] ∧ rest.dropWhile Char.isDigit = rest := by
    cases rest with
    | nil => exact ⟨rfl, rfl⟩
    | cons c rest => obtain rfl | rfl | rfl := ends c rfl <;> exact ⟨rfl, rfl⟩
  have some : digits n ≠ [] := Nat.toDigits_ne_nil
  rw [someDigits, List.takeWhile_append_of_pos run, List.dropWhile_append_of_pos run, stop.1,
    stop.2, List.append_nil]
  split
  · contradiction
  · rfl

theorem Ends.fraction_eq (ends : Ends rest) : fraction rest = some ([], rest) := by
  cases rest with
  | nil => rfl
  | cons c rest => obtain rfl | rfl | rfl := ends c rfl <;> rfl

theorem Ends.exponent_eq (ends : Ends rest) : exponent rest = some ([], rest) := by
  cases rest with
  | nil => rfl
  | cons c rest => obtain rfl | rfl | rfl := ends c rfl <;> rfl

/-- Digits do not begin with a zero unless they are that zero alone. -/
theorem head?_digits (long : 1 < (digits n).length) : (digits n).head? ≠ some '0' := by
  intro zero
  have positive : n ≠ 0 := by rintro rfl; exact absurd long (by decide)
  obtain ⟨rest, run⟩ : ∃ rest, digits n = '0' :: rest := List.head?_eq_some_iff.1 zero
  have kept := dropWhile_digits positive
  rw [run, List.dropWhile_cons_of_pos rfl] at kept
  have short := (List.dropWhile_suffix (l := rest) (· = '0')).length_le
  rw [kept, List.length_cons] at short
  exact Nat.not_succ_le_self _ short

theorem Ends.unsignedNumber_digits (ends : Ends rest) {negative : Bool}
    (sign : negative = true → n ≠ 0) :
    unsignedNumber negative (digits n ++ rest) =
      some (.int (if negative then -(n : Int) else n), rest) := by
  have plain : ¬((decide (1 < (digits n).length) && decide ((digits n).head? = some '0')) = true) :=
    by simpa using head?_digits
  have whole : (!(negative && n == 0)) = true := by cases negative <;> simp_all
  rw [unsignedNumber, ends.someDigits_digits]
  simp only [Option.bind_eq_bind, Option.bind_some, gt_iff_lt, if_neg plain, ends.fraction_eq,
    ends.exponent_eq, digitsValue_digits, whole]
  rfl

/-- Blanks are passed over and nothing else. -/
theorem skipBlanks_cons (visible : 32 < c.toNat) (cs : List Char) :
    skipBlanks (c :: cs) = c :: cs := by
  have other {d : Char} (blank : d.toNat ≤ 32) : c ≠ d := by rintro rfl; omega
  apply List.dropWhile_cons_of_neg
  simp [other (show ' '.toNat ≤ 32 by decide), other (show '\n'.toNat ≤ 32 by decide),
    other (show '\t'.toNat ≤ 32 by decide), other (show '\r'.toNat ≤ 32 by decide)]

/-- A text that begins with a value, and not with a blank or the end of an array. -/
def Starts (cs : List Char) : Prop := ∃ c rest, cs = c :: rest ∧ 32 < c.toNat ∧ c ≠ ']'

/-- A value is read off the front of any text that goes on with what may follow a value. -/
structure Reads (v : Json) : Prop where
  starts : Starts v.chars
  reads : ∀ ⦃fuel rest⦄, 2 * v.chars.length ≤ fuel + 1 → Ends rest →
    value fuel (v.chars ++ rest) = some (v, rest)

theorem Starts.length_pos (h : Starts cs) : 0 < cs.length := by
  obtain ⟨c, rest, rfl, _⟩ := h
  exact Nat.succ_pos _

theorem Starts.append (h : Starts cs) (rest : List Char) : Starts (cs ++ rest) := by
  obtain ⟨c, front, rfl, visible, inside⟩ := h
  exact ⟨c, front ++ rest, rfl, visible, inside⟩

/-- To read a value takes a step at least. -/
theorem Reads.of_step (starts : Starts v.chars)
    (step : ∀ fuel rest, 2 * v.chars.length ≤ fuel + 2 → Ends rest →
      value (fuel + 1) (v.chars ++ rest) = some (v, rest)) : Reads v where
  starts
  reads fuel rest room ends := by
    have positive := starts.length_pos
    obtain ⟨fuel, rfl⟩ : ∃ f, fuel = f + 1 := Nat.exists_eq_succ_of_ne_zero (by omega)
    exact step fuel rest room ends

theorem reads_null : Reads .null :=
  .of_step ⟨_, _, rfl, by decide, by decide⟩ fun _ _ _ _ => rfl

theorem reads_bool : ∀ b, Reads (.bool b)
  | true => .of_step ⟨_, _, rfl, by decide, by decide⟩ fun _ _ _ _ => rfl
  | false => .of_step ⟨_, _, rfl, by decide, by decide⟩ fun _ _ _ _ => rfl

theorem reads_string (text : String) : Reads (.string text) := by
  refine .of_step ⟨_, _, rfl, by decide, by decide⟩ fun fuel rest _ _ => ?_
  have written : (Json.string text).chars ++ rest =
      '"' :: (text.toList.flatMap escapeChar ++ '"' :: rest) := by
    simp [chars, quoted]
  rw [written]
  change (textBody _).bind _ = _
  rw [textBody_quoted]
  rfl

theorem value_of_digit (digit : c.isDigit = true) (fuel : Nat) (cs : List Char) :
    value (fuel + 1) (c :: cs) = unsignedNumber false (c :: cs) := by
  have visible : 32 < c.toNat := by have := bounds_of_isDigit digit; omega
  rw [value, skipBlanks_cons visible]
  split
  case h_8 => rfl
  -- no other form of a value begins with a digit
  all_goals
    rename_i same
    cases same
    exact absurd digit (by decide)

theorem exists_digits (n : Nat) : ∃ c cs, digits n = c :: cs ∧ c.isDigit = true := by
  obtain ⟨c, cs, run⟩ := List.exists_cons_of_ne_nil (l := digits n) Nat.toDigits_ne_nil
  exact ⟨c, cs, run, isDigit_digits (n := n) (run ▸ List.mem_cons_self)⟩

theorem reads_int : ∀ n, Reads (.int n)
  | .ofNat n => by
    obtain ⟨c, cs, run, digit⟩ := exists_digits n
    have written : (Json.int (.ofNat n)).chars = digits n := rfl
    refine .of_step ?_ fun fuel rest _ ends => ?_
    · have bounds := bounds_of_isDigit digit
      refine ⟨c, cs, run, by omega, ?_⟩
      rintro rfl
      exact absurd digit (by decide)
    · have read : unsignedNumber false (digits n ++ rest) = some (.int (.ofNat n), rest) :=
        ends.unsignedNumber_digits fun negative => nomatch negative
      rw [written, ← read, run]
      exact value_of_digit digit fuel (cs ++ rest)
  | .negSucc n => by
    refine .of_step ⟨_, _, rfl, by decide, by decide⟩ fun fuel rest _ ends => ?_
    exact ends.unsignedNumber_digits fun _ => Nat.succ_ne_zero n

theorem ends_cons (ends : c = ',' ∨ c = ']' ∨ c = '\x7d') (rest : List Char) :
    Ends (c :: rest) := by
  rintro _ ⟨⟩
  exact ends

theorem items_itemChars {vs : List Json} (each : ∀ v ∈ vs, Reads v) (filled : vs ≠ [])
    (room : 2 * (itemChars vs).length ≤ fuel) :
    items fuel (itemChars vs ++ ']' :: rest) = some (vs, rest) := by
  induction vs generalizing fuel with
  | nil => exact absurd rfl filled
  | cons v vs ih =>
    have first := each v (.head _)
    have positive := first.starts.length_pos
    cases vs with
    | nil =>
      have written : itemChars [v] = v.chars := rfl
      rw [written] at room ⊢
      obtain ⟨fuel, rfl⟩ : ∃ f, fuel = f + 1 := Nat.exists_eq_succ_of_ne_zero (by omega)
      rw [items, first.reads (by omega) (ends_cons (.inr (.inl rfl)) rest)]
      rfl
    | cons w vs =>
      have written : itemChars (v :: w :: vs) = v.chars ++ ',' :: itemChars (w :: vs) := rfl
      rw [written, List.length_append, List.length_cons] at room
      rw [written, List.append_assoc, List.cons_append]
      obtain ⟨fuel, rfl⟩ : ∃ f, fuel = f + 1 := Nat.exists_eq_succ_of_ne_zero (by omega)
      have others : items fuel (itemChars (w :: vs) ++ ']' :: rest) = some (w :: vs, rest) :=
        ih (fun v inside => each v (.tail _ inside)) (List.cons_ne_nil _ _) (by omega)
      rw [items, first.reads (by omega) (ends_cons (.inl rfl) _)]
      change (items fuel _).bind _ = _
      rw [others]
      rfl

/-- A member is read up to what parts it from the next one. -/
theorem members_succ {key : Key} (honest : key.Honest) (first : Reads v)
    (room : 2 * v.chars.length ≤ fuel + 1) (ends : Ends rest) :
    members (fuel + 1) (quoted key.text ++ ':' :: v.chars ++ rest) =
      match skipBlanks rest with
      | ',' :: rest =>
        (members fuel rest).bind fun read => some (read.1.map ((key, v) :: ·), read.2)
      | '\x7d' :: rest => some (some [(key, v)], rest)
      | _ => none := by
  have written : quoted key.text ++ ':' :: v.chars ++ rest =
      '"' :: (key.text.toList.flatMap escapeChar ++ '"' :: ':' :: (v.chars ++ rest)) := by
    simp [quoted]
  rw [written]
  change (keyBody _).bind _ = _
  rw [keyBody_quoted, ← show key.escaped = _ from honest]
  change (value fuel _).bind _ = _
  rw [first.reads room ends]
  rfl

theorem members_memberChars {ms : List (Key × Json)} (honest : ∀ m ∈ ms, m.1.Honest)
    (each : ∀ m ∈ ms, Reads m.2) (filled : ms ≠ []) (room : 2 * (memberChars ms).length ≤ fuel) :
    members fuel (memberChars ms ++ '\x7d' :: rest) = some (some ms, rest) := by
  induction ms generalizing fuel with
  | nil => exact absurd rfl filled
  | cons m ms ih =>
    obtain ⟨key, v⟩ := m
    have first : Reads v := each (key, v) (.head _)
    have spelled : key.Honest := honest (key, v) (.head _)
    cases ms with
    | nil =>
      have written : memberChars [(key, v)] = quoted key.text ++ ':' :: v.chars := rfl
      rw [written] at room ⊢
      rw [List.length_append, List.length_cons] at room
      obtain ⟨fuel, rfl⟩ : ∃ f, fuel = f + 1 := Nat.exists_eq_succ_of_ne_zero (by omega)
      rw [members_succ spelled first (by omega) (ends_cons (.inr (.inr rfl)) rest)]
      rfl
    | cons m' ms =>
      have written : memberChars ((key, v) :: m' :: ms) =
          quoted key.text ++ ':' :: v.chars ++ ',' :: memberChars (m' :: ms) := rfl
      simp only [written, List.length_append, List.length_cons] at room
      rw [written, List.append_assoc, List.cons_append]
      obtain ⟨fuel, rfl⟩ : ∃ f, fuel = f + 1 := Nat.exists_eq_succ_of_ne_zero (by omega)
      have others : members fuel (memberChars (m' :: ms) ++ '\x7d' :: rest) =
          some (some (m' :: ms), rest) :=
        ih (fun m inside => honest m (.tail _ inside)) (fun m inside => each m (.tail _ inside))
          (List.cons_ne_nil _ _) (by omega)
      rw [members_succ spelled first (by omega) (ends_cons (.inl rfl) _)]
      change (members fuel _).bind _ = _
      rw [others]
      rfl

theorem starts_itemChars {vs : List Json} (each : ∀ v ∈ vs, Reads v) (filled : vs ≠ []) :
    Starts (itemChars vs) := by
  match vs with
  | [v] => exact (each v (.head _)).starts
  | v :: w :: vs => exact (each v (.head _)).starts.append _

/-- What is read of an array after its opening bracket and the blanks that follow it. -/
def arrayBody (fuel : Nat) : List Char → Option (Json × List Char)
  | ']' :: rest => some (.array [], rest)
  | rest => (items fuel rest).bind fun read => some (.array read.1, read.2)

theorem value_array (starts : Starts cs) (fuel : Nat) :
    value (fuel + 1) ('[' :: cs) =
      (items fuel cs).bind fun read => some (.array read.1, read.2) := by
  obtain ⟨c, rest, rfl, visible, inside⟩ := starts
  have opened : value (fuel + 1) ('[' :: c :: rest) = arrayBody fuel (skipBlanks (c :: rest)) := rfl
  rw [opened, skipBlanks_cons visible, arrayBody]
  rintro _ ⟨⟩
  exact inside rfl

theorem reads_array {vs : List Json} (each : ∀ v ∈ vs, Reads v) : Reads (.array vs) := by
  refine .of_step ⟨_, _, rfl, by decide, by decide⟩ fun fuel rest room ends => ?_
  by_cases empty : vs = []
  · subst empty
    rfl
  · have starts := (starts_itemChars each empty).append (']' :: rest)
    have read : items fuel (itemChars vs ++ ']' :: rest) = some (vs, rest) :=
      items_itemChars each empty (by simp [chars] at room; omega)
    have written : (Json.array vs).chars ++ rest = '[' :: (itemChars vs ++ ']' :: rest) := by
      simp [chars]
    rw [written, value_array starts, read, Option.bind_some]

theorem reads_object {ms : List (Key × Json)} (honest : ∀ m ∈ ms, m.1.Honest)
    (each : ∀ m ∈ ms, Reads m.2) : Reads (.object ms) := by
  refine .of_step ⟨_, _, rfl, by decide, by decide⟩ fun fuel rest room ends => ?_
  by_cases empty : ms = []
  · subst empty
    rfl
  · have read : members fuel (memberChars ms ++ '\x7d' :: rest) = some (some ms, rest) :=
      members_memberChars honest each empty (by simp [chars] at room; omega)
    have written : (Json.object ms).chars ++ rest =
        '\x7b' :: (memberChars ms ++ '\x7d' :: rest) := by
      simp [chars]
    obtain ⟨tail, begun⟩ : ∃ tail, memberChars ms = '"' :: tail := by
      match ms with
      | [m] => exact ⟨_, rfl⟩
      | m :: m' :: ms => exact ⟨_, rfl⟩
    rw [begun, List.cons_append] at read
    rw [written, begun, List.cons_append]
    change (members fuel _).bind _ = _
    rw [read]
    rfl

/-- A value that is written as itself. -/
inductive Canonical : Json → Prop
  | null : Canonical .null
  | bool (b : Bool) : Canonical (.bool b)
  | int (n : Int) : Canonical (.int n)
  | string (text : String) : Canonical (.string text)
  | array {items : List Json} (all : ∀ v ∈ items, Canonical v) : Canonical (.array items)
  | object {members : List (Key × Json)} (honest : ∀ m ∈ members, m.1.Honest)
    (all : ∀ m ∈ members, Canonical m.2) : Canonical (.object members)

theorem Canonical.reads (h : Canonical v) : Reads v := by
  induction h with
  | null => exact reads_null
  | bool b => exact reads_bool b
  | int n => exact reads_int n
  | string text => exact reads_string text
  | array _ each => exact reads_array each
  | object honest _ each => exact reads_object honest each

/-- A value that is written as itself is found again in its text. -/
theorem parse?_print (h : Canonical v) : parse? v.print = some v := by
  have read : value (2 * v.chars.length + 1) (v.chars ++ []) = some (v, []) :=
    h.reads.reads (by omega) nofun
  rw [List.append_nil] at read
  simp [parse?, print, read, skipBlanks]

end GroupedTables.Json
