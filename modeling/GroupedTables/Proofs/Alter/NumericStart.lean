import GroupedTables.Alter.Narrowing

/-!
# The numeric start of a text

What a text begins with is a number if it is digits with at most one point among them, behind a
sign that may be left out. The scan for it takes the first character on trust: the one behind it
has to be a digit, and that is all. So a text that begins with some other character before a digit
is not found out, and a point in front is not counted. Of all other texts the longest numeric
start is found, or zero if there is none, and it is always told if anything was cut off.
-/

namespace GroupedTables.Narrowing

variable {cs other : List Char} {seen : Bool}

/-- Digits with at most so many points among them. -/
def Plain (points : Nat) (cs : List Char) : Prop :=
  (∀ c ∈ cs, c.isDigit = true ∨ c = '.') ∧ cs.count '.' ≤ points

instance {points : Nat} : Decidable (Plain points cs) := inferInstanceAs (Decidable (_ ∧ _))

def withoutSign : List Char → List Char
  | [] => []
  | c :: rest => if c = '+' ∨ c = '-' then rest else c :: rest

/-- Digits with at most one point among them, behind a sign that may be left out. -/
def Numeric (cs : List Char) : Prop := Plain 1 (withoutSign cs)

instance : Decidable (Numeric cs) := inferInstanceAs (Decidable (Plain _ _))

/-- A text begins with a digit, or with a digit behind a sign or a point. -/
def BeginsNumeric : List Char → Prop
  | [] => False
  | [c] => c.isDigit = true
  | c :: d :: _ =>
    c.isDigit = true ∨ ((c = '+' ∨ c = '-' ∨ c = '.') ∧ d.isDigit = true)

/-- What is promised to be kept of a text: its longest numeric start, or zero if it does not begin
with a number. In either case it is free of letters, and of a second point. -/
structure Promised (text start : List Char) : Prop where
  longest : BeginsNumeric text → start <+: text ∧ Numeric start ∧
    ∀ other, other <+: text → Numeric other → other <+: start
  zero : ¬BeginsNumeric text → start = ['0']
  plain : (∀ c ∈ start, c.isDigit = true ∨ c = '+' ∨ c = '-' ∨ c = '.') ∧ start.count '.' ≤ 1

/-- The first character is before a digit, and is neither a digit nor a sign; if it is a point,
there is another one behind the digits. -/
def Misread : List Char → Prop
  | c :: d :: rest => c.isDigit = false ∧ c ≠ '+' ∧ c ≠ '-' ∧ c.toNat < 128 ∧ d.isDigit = true ∧
    (c = '.' → ((d :: rest).dropWhile Char.isDigit).head? = some '.')
  | _ => False

theorem Plain.cons {c : Char} {points : Nat} (digit : c.isDigit = true) :
    Plain points (c :: cs) ↔ Plain points cs := by
  have other : c ≠ '.' := by
    rintro rfl
    exact absurd digit (by decide)
  simp [Plain, digit, other]

theorem Plain.point {points : Nat} : Plain (points + 1) ('.' :: cs) ↔ Plain points cs := by
  simp [Plain]

theorem Plain.nil {points : Nat} : Plain points [] := ⟨nofun, Nat.zero_le _⟩

/-- How many points may still come. -/
def pointsLeft (seen : Bool) : Nat := if seen then 0 else 1

theorem numericPart_prefix : numericPart seen cs <+: cs := by
  fun_induction numericPart seen cs with
  | case1 => exact List.prefix_rfl
  | case2 _ c rest _ ih => exact List.cons_prefix_cons.2 ⟨rfl, ih⟩
  | case3 _ c rest _ _ ih => exact List.cons_prefix_cons.2 ⟨rfl, ih⟩
  | case4 => exact List.nil_prefix

theorem plain_numericPart (seen : Bool) (cs : List Char) :
    Plain (pointsLeft seen) (numericPart seen cs) := by
  fun_induction numericPart seen cs with
  | case1 => exact Plain.nil
  | case2 _ c rest digit ih => exact (Plain.cons digit).2 ih
  | case3 seen c rest _ point ih =>
    obtain ⟨rfl, rfl⟩ : c = '.' ∧ seen = false := by simpa using point
    exact Plain.point.2 ih
  | case4 => exact Plain.nil

/-- Nothing is left that could still be taken. -/
theorem prefix_numericPart (start : other <+: cs) (plain : Plain (pointsLeft seen) other) :
    other <+: numericPart seen cs := by
  fun_induction numericPart seen cs generalizing other with
  | case1 => exact start
  | case2 _ c rest digit ih =>
    cases other with
    | nil => exact List.nil_prefix
    | cons c' other =>
      obtain ⟨rfl, ahead⟩ := List.cons_prefix_cons.1 start
      exact List.cons_prefix_cons.2 ⟨rfl, ih ahead ((Plain.cons digit).1 plain)⟩
  | case3 seen c rest digit point ih =>
    obtain ⟨rfl, rfl⟩ : c = '.' ∧ seen = false := by simpa using point
    cases other with
    | nil => exact List.nil_prefix
    | cons c' other =>
      obtain ⟨rfl, ahead⟩ := List.cons_prefix_cons.1 start
      exact List.cons_prefix_cons.2 ⟨rfl, ih ahead (Plain.point.1 plain)⟩
  | case4 seen c rest digit point =>
    cases other with
    | nil => exact List.nil_prefix
    | cons c' other =>
      obtain ⟨rfl, _⟩ := List.cons_prefix_cons.1 start
      obtain digit' | rfl := plain.1 c' (.head _)
      · exact absurd digit' digit
      · have seen : seen = true := by simpa using point
        have count := plain.2
        rw [List.count_cons_self, pointsLeft, seen] at count
        cases count

/-- A point is taken if it is behind the digits. -/
theorem point_mem_numericPart :
    '.' ∈ numericPart false cs ↔ (cs.dropWhile Char.isDigit).head? = some '.' := by
  induction cs with
  | nil => simp [numericPart]
  | cons c rest ih =>
    by_cases digit : c.isDigit = true
    · have other : '.' ≠ c := by
        rintro rfl
        exact absurd digit (by decide)
      rw [numericPart, if_pos digit, List.dropWhile_cons_of_pos digit, ← ih, List.mem_cons]
      exact or_iff_right other
    · rw [numericPart, if_neg digit, List.dropWhile_cons_of_neg digit]
      by_cases point : c = '.' <;> simp [point]

def kept (cs : List Char) : List Char :=
  match cs with
  | c :: rest => if startsNumeric cs then c :: numericPart false rest else ['0']
  | [] => ['0']

theorem kept_of_starts {c : Char} {rest : List Char} (starts : startsNumeric (c :: rest) = true) :
    kept (c :: rest) = c :: numericPart false rest := if_pos starts

theorem kept_of_not_starts (stopped : ¬startsNumeric cs = true) : kept cs = ['0'] := by
  cases cs with
  | nil => rfl
  | cons c rest => exact if_neg stopped

theorem startsNumeric_of_kept_eq (whole : kept cs = cs) : startsNumeric cs = true := by
  by_cases starts : startsNumeric cs = true
  · exact starts
  · rw [kept_of_not_starts starts] at whole
    rw [← whole]
    rfl

/-- It is told what was kept, unless all was. -/
theorem numericStart_eq (text : String) (k : Context) :
    numericStart text k =
      .ok (String.ofList (kept (Text.trimChars text.toList)))
        (if kept (Text.trimChars text.toList) = Text.trimChars text.toList then k
          else { k with notices := k.notices ++
            [⟨Text.trim text, String.ofList (kept (Text.trimChars text.toList))⟩] }) := by
  have unfolded : numericStart text =
      if startsNumeric (Text.trimChars text.toList) &&
          kept (Text.trimChars text.toList) = Text.trimChars text.toList then
        pure (String.ofList (Text.trimChars text.toList))
      else (do
        Context.tell (Text.trim text) (String.ofList (kept (Text.trimChars text.toList)))
        pure (String.ofList (kept (Text.trimChars text.toList)))) := rfl
  rw [unfolded]
  by_cases whole : kept (Text.trimChars text.toList) = Text.trimChars text.toList
  · rw [startsNumeric_of_kept_eq whole, if_pos (by simpa using whole), if_pos whole, whole]
    rfl
  · rw [if_neg (by simp [whole]), if_neg whole]
    rfl

theorem startsNumeric_cons_cons {c d : Char} {rest : List Char} :
    startsNumeric (c :: d :: rest) = true ↔
      c.isDigit = true ∨ (c.toNat < 128 ∧ d.isDigit = true) := by
  simp [startsNumeric]

theorem withoutSign_cons {c : Char} {rest : List Char} (other : c ≠ '+') (other' : c ≠ '-') :
    withoutSign (c :: rest) = c :: rest := if_neg (by simp [other, other'])

/-- If what is behind the first character decides what is a number, the longest one is found. -/
theorem longest_of_front {c : Char} {rest : List Char} {points : Nat} (most : points ≤ 1)
    (front : ∀ cs, Numeric (c :: cs) ↔ Plain points cs)
    (few : Plain points (numericPart false rest)) :
    c :: numericPart false rest <+: c :: rest ∧ Numeric (c :: numericPart false rest) ∧
      ∀ other, other <+: c :: rest → Numeric other → other <+: c :: numericPart false rest := by
  refine ⟨List.cons_prefix_cons.2 ⟨rfl, numericPart_prefix⟩, (front _).2 few,
    fun other start numeric => ?_⟩
  cases other with
  | nil => exact List.nil_prefix
  | cons c' other =>
    obtain ⟨rfl, ahead⟩ := List.cons_prefix_cons.1 start
    obtain ⟨plain, fewer⟩ := (front other).1 numeric
    exact List.cons_prefix_cons.2 ⟨rfl, prefix_numericPart ahead ⟨plain, Nat.le_trans fewer most⟩⟩

/-- Behind a digit in front, digits and a point are taken as far as they go. -/
theorem longest_of_digit {c : Char} {rest : List Char} (digit : c.isDigit = true) :
    c :: numericPart false rest <+: c :: rest ∧ Numeric (c :: numericPart false rest) ∧
      ∀ other, other <+: c :: rest → Numeric other → other <+: c :: numericPart false rest := by
  have unsigned (cs : List Char) : withoutSign (c :: cs) = c :: cs := by
    refine withoutSign_cons ?_ ?_ <;> rintro rfl <;> exact absurd digit (by decide)
  refine longest_of_front (Nat.le_refl 1) (fun cs => ?_) (plain_numericPart false rest)
  rw [Numeric, unsigned]
  exact Plain.cons digit

/-- So they are behind a sign. -/
theorem longest_of_sign {c : Char} {rest : List Char} (sign : c = '+' ∨ c = '-') :
    c :: numericPart false rest <+: c :: rest ∧ Numeric (c :: numericPart false rest) ∧
      ∀ other, other <+: c :: rest → Numeric other → other <+: c :: numericPart false rest := by
  have signed (cs : List Char) : withoutSign (c :: cs) = cs := if_pos sign
  refine longest_of_front (Nat.le_refl 1) (fun cs => ?_) (plain_numericPart false rest)
  rw [Numeric, signed]

/-- Behind a point in front they are, if no other point comes. -/
theorem longest_of_point {rest : List Char} (once : '.' ∉ numericPart false rest) :
    '.' :: numericPart false rest <+: '.' :: rest ∧ Numeric ('.' :: numericPart false rest) ∧
      ∀ other, other <+: '.' :: rest → Numeric other →
        other <+: '.' :: numericPart false rest :=
  longest_of_front (Nat.zero_le 1) (fun _ => Plain.point)
    ⟨(plain_numericPart false rest).1, Nat.le_of_eq (List.count_eq_zero.2 once)⟩

/-- What is a number has no letters and one point at most. -/
theorem Numeric.plain (h : Numeric cs) :
    (∀ c ∈ cs, c.isDigit = true ∨ c = '+' ∨ c = '-' ∨ c = '.') ∧ cs.count '.' ≤ 1 := by
  cases cs with
  | nil => exact ⟨nofun, Nat.zero_le _⟩
  | cons c rest =>
    by_cases sign : c = '+' ∨ c = '-'
    · have signed : withoutSign (c :: rest) = rest := if_pos sign
      rw [Numeric, signed] at h
      have other : c ≠ '.' := by
        rintro rfl
        exact absurd sign (by decide)
      refine ⟨List.forall_mem_cons.2 ⟨.inr (or_assoc.1 (.inl sign)), fun d inside => ?_⟩, ?_⟩
      · exact (h.1 d inside).imp_right fun point => .inr (.inr point)
      · rw [List.count_cons_of_ne other]
        exact h.2
    · have unsigned : withoutSign (c :: rest) = c :: rest := if_neg sign
      rw [Numeric, unsigned] at h
      exact ⟨fun d inside => (h.1 d inside).imp_right fun point => .inr (.inr point), h.2⟩

theorem Promised.of_longest {text start : List Char} (begins : BeginsNumeric text)
    (longest : start <+: text ∧ Numeric start ∧
      ∀ other, other <+: text → Numeric other → other <+: start) : Promised text start :=
  ⟨fun _ => longest, fun stopped => absurd begins stopped, longest.2.1.plain⟩

theorem Promised.of_zero {text : List Char} (stopped : ¬BeginsNumeric text) :
    Promised text ['0'] :=
  ⟨fun begins => absurd begins stopped, fun _ => rfl,
    fun _ inside => .inl (List.mem_singleton.1 inside ▸ rfl), by decide⟩

/-- A text is kept as promised unless it is misread. -/
theorem promised_kept_iff : Promised cs (kept cs) ↔ ¬Misread cs := by
  match cs with
  | [] => exact ⟨fun _ => id, fun _ => .of_zero id⟩
  | [c] =>
    refine ⟨fun _ => id, fun _ => ?_⟩
    by_cases digit : c.isDigit = true
    · have starts : startsNumeric [c] = true := digit
      rw [kept_of_starts starts]
      exact .of_longest digit (longest_of_digit digit)
    · have stopped : ¬startsNumeric [c] = true := digit
      rw [kept_of_not_starts stopped]
      exact .of_zero digit
  | c :: d :: rest =>
    by_cases starts : startsNumeric (c :: d :: rest) = true
    case neg =>
      rw [kept_of_not_starts starts]
      rw [startsNumeric_cons_cons, not_or, not_and] at starts
      refine ⟨fun _ misread => starts.2 misread.2.2.2.1 misread.2.2.2.2.1, fun _ => .of_zero ?_⟩
      rintro (digit | ⟨rfl | rfl | rfl, digit⟩)
      · exact starts.1 digit
      all_goals exact starts.2 (by decide) digit
    rw [kept_of_starts starts]
    by_cases digit : c.isDigit = true
    · refine ⟨fun _ misread => ?_, fun _ => .of_longest (.inl digit) (longest_of_digit digit)⟩
      exact Bool.false_ne_true (misread.1.symm.trans digit)
    obtain ⟨small, behind⟩ := (startsNumeric_cons_cons.1 starts).resolve_left digit
    by_cases sign : c = '+' ∨ c = '-'
    · refine ⟨fun _ misread => ?_, fun _ => .of_longest (.inr ⟨?_, behind⟩) (longest_of_sign sign)⟩
      · exact sign.elim misread.2.1 misread.2.2.1
      · exact or_assoc.1 (.inl sign)
    rw [not_or] at sign
    by_cases point : c = '.'
    · subst point
      constructor
      · intro promised misread
        have second := point_mem_numericPart.2 (misread.2.2.2.2.2 rfl)
        have count := promised.plain.2
        rw [List.count_cons_self] at count
        have more := List.count_pos_iff.2 second
        omega
      · intro read
        refine .of_longest (.inr ⟨.inr (.inr rfl), behind⟩) (longest_of_point fun second => read ?_)
        exact ⟨rfl, by decide, by decide, small, behind, fun _ => point_mem_numericPart.1 second⟩
    · constructor
      · intro promised _
        have front := promised.plain.1 c (.head _)
        exact front.elim digit fun other => other.elim sign.1 fun other => other.elim sign.2 point
      · intro read
        refine absurd ⟨?_, sign.1, sign.2, small, behind, fun same => absurd same point⟩ read
        exact Bool.eq_false_iff.2 digit

/-- What is kept of a text is its longest numeric start, or zero if it does not begin with a number,
unless the text is misread. It is told if and only if anything is cut off. -/
theorem numericStart_promised_iff (text : String) (k : Context) :
    ∃ start, numericStart text k = .ok start
        (if start = Text.trim text then k
          else { k with notices := k.notices ++ [⟨Text.trim text, start⟩] }) ∧
      (Promised (Text.trim text).toList start.toList ↔ ¬Misread (Text.trim text).toList) := by
  have chars : (Text.trim text).toList = Text.trimChars text.toList := String.toList_ofList
  refine ⟨String.ofList (kept (Text.trimChars text.toList)), ?_, ?_⟩
  · have same : String.ofList (kept (Text.trimChars text.toList)) = Text.trim text ↔
        kept (Text.trimChars text.toList) = Text.trimChars text.toList := by
      rw [← String.toList_inj, chars, String.toList_ofList]
    rw [numericStart_eq]
    simp only [same]
  · rw [chars, String.toList_ofList]
    exact promised_kept_iff

/-- A letter in front of a digit is taken for a part of the number. -/
theorem not_promised_of_letter : ∃ text start,
    numericStart text {} = .ok start {} ∧ ¬BeginsNumeric (Text.trim text).toList ∧
      start.toList ≠ ['0'] ∧ ¬Promised (Text.trim text).toList start.toList := by
  refine ⟨"x5", "x5", rfl, ?_, by decide, fun promised => ?_⟩
  · rintro (digit | ⟨front, _⟩)
    · exact absurd digit (by decide)
    · exact absurd front (by decide)
  · exact absurd (promised.plain.1 'x' (by decide)) (by decide)

end GroupedTables.Narrowing
