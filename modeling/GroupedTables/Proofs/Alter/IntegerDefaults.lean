import GroupedTables.Proofs.Alter.ColumnEdits
import GroupedTables.Proofs.Floating.Numerals

/-!
# Integer defaults of columns that change their type

A literal default that is an integer is read as a float before it is put into the range of the new
type, and the range is cut to words. So it is put into the range exactly, and told just if it was
out of it, as long as nothing is lost on the way. For the types that are narrower than a word
nothing can be lost. For the widest one a default is lost that the floats do not have, one that is
not even between `2 ^ 52` and `2 ^ 53`, and one that no word holds.
-/

namespace GroupedTables

open GroupedTables.Action Floating

namespace Narrowing

variable {v least greatest : ℤ} {x : Number}

def rounded (v : ℤ) : ℤ := Word.saturate (halfUp (nearestInt v))

/-- Neither reading the integer as a float nor adding one half to it makes a difference in the
words. -/
def Exact (v : ℤ) : Prop :=
  v.natAbs ≤ 2 ^ 52 ∨ v = Word.greatest ∨ v % 2 = 0 ∧ nearestInt v = v

/-- Putting the integer into the range of a type does not damage it: the type is narrower than a
word, or the integer is below zero and the type is not, or it is a word and exact, or it is so far
out of a range that is the words that its float is as well. -/
def Undamaged (d : TypeDescriptor) (v : ℤ) : Prop :=
  d.type ≠ .bigInt ∨ (d.isUnsigned = true ∧ v < 0) ∨ (Exact v ∧ Word.holds v = true) ∨
    (d.isUnsigned = false ∧ (nearestInt v < Word.least ∨ Word.greatest + 1 < nearestInt v))

theorem nearestWord_eq (reads : x.Reads v) : nearestWord x = rounded v := by
  have float := nearestInt_nearestInt v
  have far (sign : Bool) (huge : 2 ^ 199 ≤ (nearestInt v).natAbs)
      (same : sign = decide (nearestInt v < 0)) :
      (if sign = true then Word.least else Word.greatest) = rounded v := by
    subst same
    simp only [decide_eq_true_eq]
    unfold rounded halfUp Word.saturate Word.least Word.greatest
    split <;> split <;> split <;> omega
  obtain is | ⟨rfl, huge⟩ := reads
  · obtain ⟨s, m, q, sum, floor⟩ | ⟨sum, huge⟩ := floor_addHalf is float
    · rw [nearestWord, sum]
      dsimp only
      rw [floor]
      rfl
    · rw [nearestWord, sum]
      exact far _ huge rfl
  · have large : 2 ^ 53 ≤ v.natAbs := by omega
    have sign := (nearestInt_large large).2
    have huge' : 2 ^ 200 ≤ (nearestInt v).natAbs := by
      rw [natAbs_nearestInt]
      exact le_nearestNat huge
    exact far _ (by omega) (decide_eq_decide.2 sign.symm)

theorem natAbs_rounded_le (v : ℤ) : (rounded v).natAbs ≤ 2 ^ 63 := by
  unfold rounded Word.saturate Word.least Word.greatest
  split
  · omega
  · split <;> omega

/-- Rounding is told unless the word reads as the same float. -/
theorem sameValue_iff_of_reads (reads : x.Reads v) :
    (Number.ofInt (rounded v)).sameValue x = true ↔ nearestInt (rounded v) = nearestInt v := by
  have small := natAbs_rounded_le v
  have is := is_ofInt (v := rounded v) (by omega)
  obtain is' | ⟨rfl, huge⟩ := reads
  · rw [Number.sameValue_iff is is']
    exact Int.cast_inj
  · have different : nearestInt (rounded v) ≠ nearestInt v := by
      intro same
      have above := le_nearestNat huge
      have below : nearestNat (rounded v).natAbs ≤ 2 ^ 64 := nearestNat_le (by omega)
      rw [← natAbs_nearestInt, ← same, natAbs_nearestInt] at above
      omega
    refine iff_of_false (fun same => ?_) different
    cases told : Number.ofInt (rounded v) with
    | finite => rw [told] at same; exact Bool.false_ne_true same
    | infinite => rw [told] at is; exact is
    | nan => rw [told] at is; exact is

def roundingNotices (x : Number) (word : ℤ) : List Notice :=
  if (Number.ofInt word).sameValue x = true then [] else [⟨binary64.text x, toString word⟩]

/-- What putting a word into a range tells. -/
def clampNotices (least greatest word : ℤ) : List Notice :=
  if greatest < word then [⟨toString word, toString greatest⟩]
  else if word < least then [⟨toString word, toString least⟩]
  else []

theorem clamp_eq (ordered : least ≤ greatest) (word : ℤ) (k : Context) :
    clamp greatest least word k = .ok (max least (min word greatest))
      { k with notices := k.notices ++ clampNotices least greatest word } := by
  unfold clamp clampNotices
  split
  case isTrue above =>
    rw [min_eq_right (by omega), max_eq_right ordered]
    rfl
  case isFalse =>
    split
    case isTrue below =>
      rw [min_eq_left (by omega), max_eq_left (by omega)]
      rfl
    case isFalse =>
      rw [min_eq_left (by omega), max_eq_right (by omega), List.append_nil]
      rfl

theorem round_eq (ordered : least ≤ greatest) (k : Context) :
    round greatest least x k = .ok (max least (min (nearestWord x) greatest))
      { k with notices := k.notices ++
          (roundingNotices x (nearestWord x) ++ clampNotices least greatest (nearestWord x)) } := by
  unfold round roundingNotices
  dsimp only
  by_cases same : (Number.ofInt (nearestWord x)).sameValue x = true
  · rw [if_pos same, if_neg (by simp [same]), List.nil_append]
    exact clamp_eq ordered _ k
  · rw [if_neg same, if_pos (by simpa using same), ← List.append_assoc]
    exact clamp_eq ordered _ _

theorem integerBits_cases {type : DataType} {bits : ℕ} (width : type.integerBits? = some bits) :
    type = .bigInt ∧ bits = 64 ∨
      type ≠ .bigInt ∧ (bits = 8 ∨ bits = 16 ∨ bits = 24 ∨ bits = 32) := by
  unfold DataType.integerBits? at width
  cases type <;> simp at width <;> simp [← width]

/-- The range of an integer type lies well within the words and has zero in it, unless the type is
as wide as a word. -/
theorem range_cases {d : TypeDescriptor} (range : d.integerRange? = some (least, greatest)) :
    (d.type ≠ .bigInt ∧ -2 ^ 31 ≤ least ∧ least ≤ 0 ∧ 0 < greatest ∧ greatest < 2 ^ 32) ∨
      (d.type = .bigInt ∧ d.isUnsigned = true ∧ least = 0 ∧ greatest = 2 ^ 64 - 1) ∨
      (d.type = .bigInt ∧ d.isUnsigned = false ∧ least = -2 ^ 63 ∧ greatest = 2 ^ 63 - 1) := by
  obtain ⟨bits, width, same⟩ := Option.map_eq_some_iff.1 range
  by_cases unsigned : d.isUnsigned = true
  · rw [if_pos unsigned, Prod.mk.injEq] at same
    obtain ⟨rfl, rfl⟩ := same
    obtain ⟨wide, rfl⟩ | ⟨narrow, rfl | rfl | rfl | rfl⟩ := integerBits_cases width
    · exact .inr (.inl ⟨wide, unsigned, rfl, rfl⟩)
    all_goals exact .inl ⟨narrow, by decide, by decide, by decide, by decide⟩
  · rw [if_neg unsigned, Prod.mk.injEq] at same
    obtain ⟨rfl, rfl⟩ := same
    obtain ⟨wide, rfl⟩ | ⟨narrow, rfl | rfl | rfl | rfl⟩ := integerBits_cases width
    · exact .inr (.inr ⟨wide, Bool.eq_false_iff.2 unsigned, rfl, rfl⟩)
    all_goals exact .inl ⟨narrow, by decide, by decide, by decide, by decide⟩

theorem saturate_cases (n : ℤ) :
    (Word.greatest < n ∧ Word.saturate n = Word.greatest) ∨
      (n < Word.least ∧ Word.saturate n = Word.least) ∨
      (Word.least ≤ n ∧ n ≤ Word.greatest ∧ Word.saturate n = n) := by
  unfold Word.saturate
  split
  · exact .inl ⟨‹_›, rfl⟩
  · split
    · exact .inr (.inl ⟨‹_›, rfl⟩)
    · exact .inr (.inr ⟨by omega, by omega, rfl⟩)

/-- The bounds of a range, put into the words, are in order. -/
theorem range_ordered {d : TypeDescriptor} (range : d.integerRange? = some (least, greatest)) :
    Word.saturate least ≤ Word.saturate greatest := by
  obtain ⟨_, _, below, above, _⟩ | ⟨_, _, rfl, rfl⟩ | ⟨_, _, rfl, rfl⟩ := range_cases range
  · have low := saturate_cases least
    have high := saturate_cases greatest
    unfold Word.least Word.greatest at *
    omega
  · decide
  · decide

theorem rounded_of_lt (small : v.natAbs < 2 ^ 53) : rounded v = halfUp v := by
  rw [rounded, nearestInt_of_le (Nat.le_of_lt small)]
  refine Word.saturate_of_holds (decide_eq_true ?_)
  unfold halfUp Word.least Word.greatest
  split <;> omega

/-- So large an integer is even as a float, and adding one half to it makes no difference. -/
theorem rounded_of_large (large : 2 ^ 53 ≤ v.natAbs) :
    rounded v = Word.saturate (nearestInt v) := by
  obtain ⟨even, -⟩ := nearestInt_large large
  have same : halfUp (nearestInt v) = nearestInt v := by
    unfold halfUp
    split <;> omega
  rw [rounded, same]

/-- The word is read as the float that it came from, or as that of the bound. -/
theorem nearestInt_rounded (large : 2 ^ 53 ≤ v.natAbs) :
    (Word.holds (nearestInt v) = true → nearestInt (rounded v) = nearestInt v) ∧
      (Word.greatest < nearestInt v → nearestInt (rounded v) = 2 ^ 63) ∧
      (nearestInt v < Word.least → nearestInt (rounded v) = -2 ^ 63) := by
  rw [rounded_of_large large]
  refine ⟨fun holds => ?_, fun beyond => ?_, fun beyond => ?_⟩
  · rw [Word.saturate_of_holds holds]
    exact nearestInt_nearestInt v
  · rw [Word.saturate, if_pos beyond]
    decide
  · rw [Word.saturate, if_neg (by unfold Word.least Word.greatest at *; omega), if_pos beyond]
    decide

/-- Reading an integer as a float does not take it over the bounds of the words. -/
theorem natAbs_nearestInt_bounds (v : ℤ) :
    (v.natAbs ≤ 2 ^ 63 → (nearestInt v).natAbs ≤ 2 ^ 63) ∧
      (2 ^ 63 ≤ v.natAbs → 2 ^ 63 ≤ (nearestInt v).natAbs) := by
  rw [natAbs_nearestInt]
  refine ⟨fun small => ?_, le_nearestNat⟩
  obtain small | least := Nat.lt_or_eq_of_le small
  · exact nearestNat_le small
  · rw [least]
    decide

/-- What becomes of an integer up to `2 ^ 52`, below `2 ^ 53`, and above. -/
theorem rounded_cases (v : ℤ) :
    (v.natAbs ≤ 2 ^ 52 ∧ nearestInt v = v ∧ rounded v = v ∧ nearestInt (rounded v) = v) ∨
      (2 ^ 52 < v.natAbs ∧ v.natAbs < 2 ^ 53 ∧ nearestInt v = v ∧ rounded v = v + v % 2 ∧
        nearestInt (rounded v) = v + v % 2) ∨
      (2 ^ 53 ≤ v.natAbs ∧ 2 ^ 53 ≤ (nearestInt v).natAbs ∧ nearestInt v % 2 = 0 ∧
        (nearestInt v < 0 ↔ v < 0) ∧ rounded v = Word.saturate (nearestInt v)) := by
  obtain small | large := Nat.lt_or_ge v.natAbs (2 ^ 53)
  · have float := nearestInt_of_le (Nat.le_of_lt small)
    obtain more | most := Nat.lt_or_ge (2 ^ 52) v.natAbs
    · have word : rounded v = v + v % 2 := by
        rw [rounded_of_lt small, halfUp]
        split <;> omega
      refine .inr (.inl ⟨more, small, float, word, ?_⟩)
      rw [word]
      exact nearestInt_of_le (by omega)
    · have word : rounded v = v := by
        rw [rounded_of_lt small, halfUp]
        split <;> omega
      exact .inl ⟨most, float, word, by rw [word, float]⟩
  · obtain ⟨even, sign⟩ := nearestInt_large large
    have above : 2 ^ 53 ≤ (nearestInt v).natAbs := natAbs_nearestInt v ▸ le_nearestNat large
    exact .inr (.inr ⟨large, above, even, sign, rounded_of_large large⟩)

/-- A numeral is made a numeral of the new type. -/
theorem literalFor_eq {d : TypeDescriptor} {literal : String} (numeral : Denotes literal v)
    (range : d.integerRange? = some (least, greatest)) (k : Context) :
    ∃ x, x.Reads v ∧ literalFor d literal k =
      .ok (toString (max (Word.saturate least) (min (rounded v) (Word.saturate greatest))))
        { k with notices := k.notices ++ (roundingNotices x (rounded v) ++
            clampNotices (Word.saturate least) (Word.saturate greatest) (rounded v)) } := by
  obtain ⟨x, read, reads⟩ := numeral.number?
  refine ⟨x, reads, ?_⟩
  have number : literalNumber literal = pure x := by
    unfold literalNumber
    rw [numeral.trim_eq, read]
  unfold literalFor
  rw [range]
  dsimp only
  rw [number, pure_bind, ← nearestWord_eq reads]
  simp only [bind, EStateM.bind, round_eq (range_ordered range) k]
  rfl

/-- Something is told just if the word is another float, or out of the range. -/
theorem told_iff (reads : x.Reads v) :
    roundingNotices x (rounded v) ++ clampNotices least greatest (rounded v) ≠ [] ↔
      nearestInt (rounded v) ≠ nearestInt v ∨ greatest < rounded v ∨ rounded v < least := by
  unfold roundingNotices clampNotices
  simp only [sameValue_iff_of_reads reads]
  by_cases same : nearestInt (rounded v) = nearestInt v
  · rw [if_pos same, List.nil_append]
    split
    case isTrue above => simp [above]
    case isFalse inside =>
      split
      case isTrue below => simp [below]
      case isFalse other => simp [same, inside, other]
  · simp [same]

/-- The word is put where the integer belongs, and that is told just if the integer was elsewhere,
unless the integer is damaged. -/
theorem clamped_iff {d : TypeDescriptor} (range : d.integerRange? = some (least, greatest))
    (v : ℤ) :
    (max (Word.saturate least) (min (rounded v) (Word.saturate greatest)) =
          max least (min v greatest) ∧
        ((nearestInt (rounded v) ≠ nearestInt v ∨ Word.saturate greatest < rounded v ∨
          rounded v < Word.saturate least) ↔ v < least ∨ greatest < v)) ↔ Undamaged d v := by
  have last : v = Word.greatest → nearestInt v = 2 ^ 63 := by
    rintro rfl
    decide
  have low := saturate_cases least
  have high := saturate_cases greatest
  have word := saturate_cases (nearestInt v)
  have bounds := natAbs_nearestInt_bounds v
  have read := nearestInt_rounded (v := v)
  have cases := rounded_cases v
  unfold Undamaged Exact
  -- all that matters of the floats and words is in the facts above
  generalize nearestInt (rounded v) = y at *
  generalize rounded v = r at *
  generalize nearestInt v = x at *
  generalize Word.saturate least = low' at *
  generalize Word.saturate greatest = high' at *
  generalize Word.saturate x = word' at *
  simp only [Word.holds, decide_eq_true_eq] at *
  unfold Word.least Word.greatest at *
  obtain ⟨narrow, within⟩ | ⟨wide, unsigned, rfl, rfl⟩ | ⟨wide, signed, rfl, rfl⟩ :=
    range_cases range
  · refine iff_of_true ?_ (.inl narrow)
    have low : low' = least := by omega
    have high : high' = greatest := by omega
    subst low high
    obtain ⟨_, rfl, rfl, rfl⟩ | ⟨_, _, rfl, rfl, rfl⟩ | ⟨_, _, _, _, rfl⟩ := cases <;>
    omega
  · simp only [wide, unsigned, ne_eq, not_true_eq_false, false_or, true_and, Bool.true_eq_false,
      false_and, or_false]
    have low : low' = 0 := by omega
    have high : high' = 2 ^ 63 - 1 := by omega
    subst low high
    obtain ⟨_, rfl, rfl, rfl⟩ | ⟨_, _, rfl, rfl, rfl⟩ | ⟨_, _, _, _, rfl⟩ := cases <;>
    omega
  · simp only [wide, signed, ne_eq, not_true_eq_false, false_or, true_and, Bool.false_eq_true,
      false_and]
    have low : low' = -2 ^ 63 := by omega
    have high : high' = 2 ^ 63 - 1 := by omega
    subst low high
    obtain ⟨_, rfl, rfl, rfl⟩ | ⟨_, _, rfl, rfl, rfl⟩ | ⟨_, _, _, _, rfl⟩ := cases <;>
    omega

end Narrowing

namespace Draft

open Narrowing Catalog

variable {draft : Draft} {table : TableId} {t : Table} {name : String} {column : Column}
  {literal kept : String} {d : TypeDescriptor}

/-- A column that gets another type gets the literal that was fitted to it. -/
theorem modifyColumn_of_fitted {k : Context} (there : draft.catalog.tables.get? table = some t)
    (found : t.column? name = some column) (default : column.default = some (.literal literal))
    (fitted : literalFor d literal draft.context = .ok kept k) :
    Draft.modifyColumn table name (.type d) draft = .ok ()
      { catalog := draft.catalog.editing table (·.withColumnChanged name
          ({ · with descriptor := d, default := some (.literal kept) }))
        context := k } := by
  obtain rfl := Table.name_of_column? found
  apply eq_ok_of_wp
  unfold modifyColumn setType
  simp only [wp_bind, wp_get, wp_lift_of_ok (table_of_get? there), found, default]
  rw [wp_map, onContext, wp_within, wp_of_ok fitted, edit, wp_within]
  exact (wp_editColumn (by exact there) found).2 ⟨trivial, rfl⟩

/-- A column that gets an integer type keeps the integer that its default denotes as far as the
range of the type allows, and somebody is told just if it does not, unless the default is
damaged. -/
theorem modifyColumn_clamps_iff {v least greatest : ℤ}
    (there : draft.catalog.tables.get? table = some t) (found : t.column? name = some column)
    (default : column.default = some (.literal literal)) (numeral : Denotes literal v)
    (range : d.integerRange? = some (least, greatest)) :
    ∃ kept told, Draft.modifyColumn table name (.type d) draft = .ok ()
        { catalog := draft.catalog.editing table (·.withColumnChanged name
            ({ · with descriptor := d, default := some (.literal kept) }))
          context := { draft.context with notices := draft.context.notices ++ told } } ∧
      ((Denotes kept (max least (min v greatest)) ∧ (told ≠ [] ↔ v < least ∨ greatest < v)) ↔
        Undamaged d v) := by
  obtain ⟨x, reads, fitted⟩ := literalFor_eq numeral range draft.context
  refine ⟨_, _, modifyColumn_of_fitted there found default fitted, ?_⟩
  rw [← clamped_iff range v, ← told_iff reads, denotes_toString_iff]

def price (literal : String) : Column where
  name := "price"
  descriptor := .ofType .bigInt
  default := some (.literal literal)

def priced (literal : String) : Draft where
  catalog :=
    { tables := .ofList [(1, { id := 1, name := ⟨"shop", "item"⟩, columns := [price literal] })]
      nextId := 1 }
  context := {}

/-- A default that is out of the range. -/
theorem modifyColumn_clamps_iff_priced : ∃ kept told,
    Draft.modifyColumn 1 "price" (.type (.ofType .tinyInt)) (priced "300") = .ok ()
      { catalog := (priced "300").catalog.editing 1 (·.withColumnChanged "price"
          ({ · with descriptor := .ofType .tinyInt, default := some (.literal kept) }))
        context := { notices := told } } ∧
    Denotes kept 127 ∧ told ≠ [] := by
  obtain ⟨t, there, found⟩ : ∃ t, (priced "300").catalog.tables.get? 1 = some t ∧
      t.column? "price" = some (price "300") := ⟨_, rfl, rfl⟩
  have numeral : Denotes "300" 300 := by decide
  have range : (TypeDescriptor.ofType .tinyInt).integerRange? = some (-128, 127) := by decide
  obtain ⟨kept, told, changed, clamps⟩ := modifyColumn_clamps_iff there found rfl numeral range
  obtain ⟨denotes, outside⟩ := clamps.2 (.inl (by decide))
  exact ⟨kept, told, changed, denotes, outside.2 (by decide)⟩

/-- An integer that is no float is damaged, although it is a word and the type is the widest, and
nobody is told. -/
theorem modifyColumn_damages_odd : ∃ after column,
    Denotes "9007199254740993" 9007199254740993 ∧
    (TypeDescriptor.ofType .bigInt).integerRange? = some (Word.least, Word.greatest) ∧
    Draft.modifyColumn 1 "price" (.type (.ofType .bigInt)) (priced "9007199254740993") =
      .ok () after ∧
    (after.catalog.tables.get? 1).bind (·.column? "price") = some column ∧
    column.default = some (.literal "9007199254740992") ∧
    ¬Denotes "9007199254740992" (max Word.least (min 9007199254740993 Word.greatest)) ∧
    after.context.notices = [] := by
  obtain ⟨_, after, changed, kept, untold⟩ := exists_ok_of_wp (show
    WP (Draft.modifyColumn 1 "price" (.type (.ofType .bigInt)))
      (fun _ after => (after.catalog.tables.get? 1).bind (·.column? "price") =
          some (price "9007199254740992") ∧
        after.context.notices = [])
      (fun _ _ => False) (priced "9007199254740993") by decide +kernel)
  exact ⟨after, _, by decide, by decide, changed, kept, rfl, by decide, untold⟩

end Draft

end GroupedTables
