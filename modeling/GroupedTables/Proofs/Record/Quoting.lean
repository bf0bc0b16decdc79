import GroupedTables.Proofs.Action
import GroupedTables.Proofs.Record.Rendering

/-!
# Values stay between their quotes

A reader of a statement finds the end of a quoted value by its quote character: two in a row are
one that belongs to the value, and the first one alone ends it. A value is written so that this
reader stops at the quote that closes it and has read what the value says, whatever characters
it is made of. Values that get no quotes have neither a quote character nor a comma. So where one
value ends and the next begins is settled by the text alone.
-/

namespace GroupedTables

/-- Whether values of the type are put in quotes. -/
def DataType.isQuoted (t : DataType) : Bool := t.isText || t.isBinary || t.isTemporal

namespace Quote

variable {q : Quote} {mark : Char} {cs rest : List Char}

/-- Reads behind an opening quote, up to the first quote character that is not one of two: what
was read, two quote characters as one, and what follows the quote that ended it. -/
def scan (mark : Char) : List Char → Option (List Char × List Char)
  | [] => Option.none
  | c :: rest =>
    if c = mark then
      match rest with
      | [] => some ([], [])
      | d :: more =>
        if d = mark then (scan mark more).map fun (read, left) => (mark :: read, left)
        else some ([], d :: more)
    else (scan mark rest).map fun (read, left) => (c :: read, left)

theorem scan_single (apart : rest.head? ≠ some mark) :
    scan mark (mark :: rest) = some ([], rest) := by
  cases rest with
  | nil => exact if_pos rfl
  | cons d more =>
    rw [scan, if_pos rfl]
    exact if_neg fun same => apart (congrArg some same)

theorem scan_double (mark : Char) (rest : List Char) : scan mark (mark :: mark :: rest) =
    (scan mark rest).map fun (read, left) => (mark :: read, left) := by
  rw [scan, if_pos rfl]
  exact if_pos rfl

theorem scan_other {c : Char} (other : c ≠ mark) (rest : List Char) : scan mark (c :: rest) =
    (scan mark rest).map fun (read, left) => (c :: read, left) := by
  cases rest <;> exact if_neg other

section styled

variable (styled : q.mark? = some mark)

include styled

theorem mark_eq : mark = '\'' ∨ mark = '"' := by
  cases q with
  | none => cases styled
  | single => exact .inl (Option.some.inj styled).symm
  | double => exact .inr (Option.some.inj styled).symm

theorem escape_cons (c : Char) (cs : List Char) :
    q.escape (c :: cs) = (if c = mark then [mark, c] else [c]) ++ q.escape cs := by
  simp only [escape, styled, List.flatMap_cons]

/-- Behind an opening quote, an escaped text is read as it was up to the quote that closes it. -/
theorem scan_escape (cs : List Char) (apart : rest.head? ≠ some mark) :
    scan mark (q.escape cs ++ mark :: rest) = some (cs, rest) := by
  induction cs with
  | nil =>
    rw [escape_nil, List.nil_append]
    exact scan_single apart
  | cons c cs ih =>
    rw [escape_cons styled]
    split
    case isTrue same =>
      -- the mark and its double are read as the one of the text, and the scan goes on behind both
      subst same
      rw [List.append_assoc, List.cons_append, List.singleton_append, scan_double, ih]
      rfl
    case isFalse other =>
      rw [List.append_assoc, List.singleton_append, scan_other other, ih]
      rfl

theorem not_mem_of_plain (plain : Record.Plain cs) : mark ∉ cs := by
  intro inside
  obtain ⟨single, double, -⟩ := plain mark inside
  exact (mark_eq styled).elim single double

theorem escape_of_plain (plain : Record.Plain cs) : q.escape cs = cs := by
  induction cs with
  | nil => exact escape_nil q
  | cons c cs ih =>
    have free := not_mem_of_plain styled plain
    have other : c ≠ mark := fun same => free (same ▸ .head _)
    rw [escape_cons styled, if_neg other, ih (Record.plain_cons.1 plain).2]
    rfl

theorem around_eq (type : DataType) : q.around type = if type.isQuoted then [mark] else [] := by
  rw [around, appliesTo, styled]
  rfl

end styled

end Quote

namespace Record

variable {q : Quote} {mark : Char} {cs s t : List Char} {f : Field} {sink sink' : String}

/-- What is read between the quotes of a value: the text that its bytes are decoded to, or what
stands in place of bytes that are no text, and the digits of bytes, dates and times. -/
inductive Field.Tells (f : Field) : List Char → Prop
  | text {bytes : List UInt8} {text : String} (typed : f.type.type.isText = true)
    (read : f.payload = .ok bytes) (decoded : f.type.textCharset.decode bytes = .ok text) :
    Tells f text.toList
  | undecodable {bytes : List UInt8} {e : CodingError} (typed : f.type.type.isText = true)
    (read : f.payload = .ok bytes) (failed : f.type.textCharset.decode bytes = .error e) :
    Tells f (undecodableText e)
  | bytes {bytes : List UInt8} (typed : f.type.type.isBinary = true)
    (read : f.payload = .ok bytes) : Tells f (bytes.flatMap Text.byteHex)
  | date {n : Int} (typed : f.type.type = .date) (read : f.signed = .ok n) :
    Tells f (dateText n).toList
  | dateTime {n : Int} (typed : f.type.type = .dateTime) (read : f.signed = .ok n) :
    Tells f (dateTimeText n).toList
  | time {n : Int} (typed : f.type.type = .time) (read : f.signed = .ok n) :
    Tells f (timeText n).toList
  | timestamp {n : Int} {text : String} (typed : f.type.type = .timestamp)
    (read : f.signed = .ok n) (within : timestampText n = .ok text) : Tells f text.toList
  | year {n : Int} (typed : f.type.type = .year) (read : f.year = .ok n) :
    Tells f (yearText n).toList

/-- A value that is written is what it tells, escaped, or one that needs no quotes. -/
theorem Field.valueText_eq_ok (styled : q.mark? = some mark) (written : f.valueText q = .ok cs) :
    if f.type.type.isQuoted then ∃ told, f.Tells told ∧ cs = q.escape told
    else cs ≠ [] ∧ Plain cs := by
  -- bytes, dates and times are not escaped, but there is nothing in them to escape
  have escaped {told : List Char} (tells : f.Tells told) (plain : Plain told) :
      ∃ told', f.Tells told' ∧ told = q.escape told' :=
    ⟨told, tells, (Quote.escape_of_plain styled plain).symm⟩
  unfold valueText at written
  cases typed : f.type.type with
  | char | varchar | text =>
    rw [typed] at written
    have text : f.type.type.isText = true := by rw [typed]; rfl
    obtain ⟨bytes, read, written⟩ := Check.bind_eq_ok.1 written
    cases decoded : f.type.textCharset.decode bytes with
    | ok text' =>
      rw [Quote.escapeBytes, decoded] at written
      cases written
      exact ⟨_, .text text read decoded, rfl⟩
    | error e =>
      rw [Quote.escapeBytes, decoded] at written
      cases written
      exact ⟨_, .undecodable text read decoded, rfl⟩
  | binary | varBinary | blob =>
    rw [typed] at written
    obtain ⟨bytes, read, rfl⟩ := Check.map_eq_ok.1 written
    exact escaped (.bytes (by rw [typed]; rfl) read) (plain_flatMap_byteHex bytes)
  | date =>
    rw [typed] at written
    obtain ⟨n, read, rfl⟩ := Check.map_eq_ok.1 written
    exact escaped (.date typed read) (plain_dateText n)
  | dateTime =>
    rw [typed] at written
    obtain ⟨n, read, rfl⟩ := Check.map_eq_ok.1 written
    exact escaped (.dateTime typed read) (plain_dateTimeText n)
  | time =>
    rw [typed] at written
    obtain ⟨n, read, rfl⟩ := Check.map_eq_ok.1 written
    exact escaped (.time typed read) (plain_timeText n)
  | timestamp =>
    rw [typed] at written
    simp only [Check.bind_eq_ok, Check.lift_eq_ok, pure, Except.pure, Except.ok.injEq] at written
    obtain ⟨n, read, text, within, rfl⟩ := written
    exact escaped (.timestamp typed read within) (plain_timestampText within)
  | year =>
    rw [typed] at written
    obtain ⟨n, read, rfl⟩ := Check.map_eq_ok.1 written
    exact escaped (.year typed read) (plain_yearText n)
  | decimal =>
    rw [typed] at written
    simp only [Check.bind_eq_ok, Check.lift_eq_ok, pure, Except.pure, Except.ok.injEq] at written
    obtain ⟨bytes, -, text, decoded, rfl⟩ := written
    exact plain_of_spelled (spelled_of_decodeText decoded)
  | tinyInt | smallInt | mediumInt | int | bigInt =>
    rw [typed] at written
    dsimp only at written
    split at written
    · obtain ⟨n, -, rfl⟩ := Check.map_eq_ok.1 written
      exact plain_toString n
    · obtain ⟨n, -, rfl⟩ := Check.map_eq_ok.1 written
      exact plain_toString n
  | float =>
    rw [typed] at written
    obtain ⟨x, -, rfl⟩ := Check.map_eq_ok.1 written
    exact plain_floatText _ _
  | double =>
    rw [typed] at written
    obtain ⟨x, -, rfl⟩ := Check.map_eq_ok.1 written
    exact plain_floatText _ _

/-- What is appended is NULL, a value that needs no quotes, or what a value tells, escaped and in
quotes. -/
theorem Field.appendText_eq_ok (styled : q.mark? = some mark)
    (written : f.appendText q sink = (.ok (), sink')) : ∃ s, sink' = sink ++ String.ofList s ∧
      (f.isNull = true ∧ s = "NULL".toList ∨
        f.type.type.isQuoted = false ∧ s ≠ [] ∧ Plain s ∨
        f.type.type.isQuoted = true ∧
          ∃ told, f.Tells told ∧ s = mark :: (q.escape told ++ [mark])) := by
  unfold appendText at written
  split at written
  case isTrue null =>
    cases written
    exact ⟨"NULL".toList, by rw [String.ofList_toList], .inl ⟨null, rfl⟩⟩
  case isFalse =>
    rw [Quote.around_eq styled] at written
    cases text : f.valueText q with
    | error e => rw [text] at written; cases written
    | ok cs =>
      rw [text] at written
      cases written
      have parts := valueText_eq_ok styled text
      cases quoted : f.type.type.isQuoted with
      | false =>
        rw [quoted, if_neg Bool.false_ne_true] at parts
        refine ⟨cs, ?_, .inr (.inl ⟨rfl, parts⟩)⟩
        rw [if_neg Bool.false_ne_true, List.nil_append, List.append_nil]
      | true =>
        rw [quoted, if_pos rfl] at parts
        obtain ⟨told, tells, rfl⟩ := parts
        exact ⟨_, rfl, .inr (.inr ⟨rfl, told, tells, rfl⟩)⟩

/-- A text that a field is written as in a statement: NULL, a value without quotes that has no quote
character, or a value in quotes. A reader that starts behind the opening quote ends at the closing
one, whatever follows that is not one more, and has read what the value tells. -/
inductive Field.Rendered (f : Field) (mark : Char) : List Char → Prop
  | null (absent : f.isNull = true) : Rendered f mark "NULL".toList
  | unquoted {s : List Char} (typed : f.type.type.isQuoted = false) (free : mark ∉ s) :
    Rendered f mark s
  | quoted {body told : List Char} (typed : f.type.type.isQuoted = true) (tells : f.Tells told)
    (scanned : ∀ rest, rest.head? ≠ some mark →
      Quote.scan mark (body ++ mark :: rest) = some (told, rest)) :
    Rendered f mark (mark :: (body ++ [mark]))

/-- A value between commas. -/
inductive Cell (q : Quote) (mark : Char) : List Char → Prop
  | plain {s : List Char} (some : s ≠ []) (plain : Plain s) : Cell q mark s
  | quoted (told : List Char) : Cell q mark (mark :: (q.escape told ++ [mark]))

/-- The text is empty or goes on with a comma. -/
def AtComma (cs : List Char) : Prop := ∀ c ∈ cs.head?, c = ','

theorem Cell.ne_nil (cell : Cell q mark s) : s ≠ [] := by
  cases cell with
  | plain some => exact some
  | quoted => exact List.cons_ne_nil _ _

theorem takeWhile_plain {behind : List Char} (plain : Plain s) (ends : AtComma behind) :
    (s ++ behind).takeWhile (fun c => decide (c ≠ ',')) = s := by
  have inside : ∀ c ∈ s, decide (c ≠ ',') = true := fun c inside =>
    decide_eq_true (plain c inside).2.2
  have none : behind.takeWhile (fun c => decide (c ≠ ',')) = [] := by
    cases behind with
    | nil => rfl
    | cons c rest =>
      obtain rfl := ends c rfl
      rfl
  rw [List.takeWhile_append_of_pos inside, none, List.append_nil]

section styled

variable (styled : q.mark? = some mark)

include styled

theorem AtComma.apart (ends : AtComma cs) : cs.head? ≠ some mark := by
  intro same
  have comma := ends mark same
  obtain rfl | rfl := Quote.mark_eq styled <;> exact absurd comma (by decide)

theorem not_plain_of_mark {told behind : List Char} (plain : Plain s)
    (same : s ++ behind = mark :: told) (filled : s ≠ []) : False := by
  obtain ⟨c, rest, rfl⟩ := List.exists_cons_of_ne_nil filled
  cases same
  exact Quote.not_mem_of_plain styled plain (.head _)

/-- Where a value ends does not depend on what follows behind a comma. -/
theorem Cell.cut {behind behind' : List Char} (cell : Cell q mark s) (cell' : Cell q mark t)
    (ends : AtComma behind) (ends' : AtComma behind') (same : s ++ behind = t ++ behind') :
    s = t ∧ behind = behind' := by
  cases cell with
  | plain some plain =>
    cases cell' with
    | plain some' plain' =>
      have front := congrArg (List.takeWhile fun c => decide (c ≠ ',')) same
      rw [takeWhile_plain plain ends, takeWhile_plain plain' ends'] at front
      subst front
      exact ⟨rfl, List.append_cancel_left same⟩
    | quoted told => exact (not_plain_of_mark styled plain same some).elim
  | quoted told =>
    cases cell' with
    | plain some' plain' => exact (not_plain_of_mark styled plain' same.symm some').elim
    | quoted told' =>
      rw [List.cons_append, List.append_assoc, List.singleton_append, List.cons_append,
        List.append_assoc, List.singleton_append] at same
      have read := Quote.scan_escape styled told (ends.apart styled)
      rw [(List.cons.inj same).2, Quote.scan_escape styled told' (ends'.apart styled)] at read
      cases read
      exact ⟨rfl, rfl⟩

end styled

def behindCommas (values : List (List Char)) : List Char := values.flatMap ([',', ' '] ++ ·)

theorem atComma_behindCommas (values : List (List Char)) : AtComma (behindCommas values) := by
  cases values with
  | nil => exact fun c none => by cases none
  | cons s rest => exact fun c first => (Option.some.inj first).symm

theorem intercalate_cons (s : List Char) (rest : List (List Char)) :
    List.intercalate [',', ' '] (s :: rest) = s ++ behindCommas rest := by
  induction rest generalizing s with
  | nil => simp [behindCommas]
  | cons t rest ih =>
    rw [List.intercalate_cons_cons, ih]
    simp [behindCommas]

theorem eq_of_behindCommas_eq (styled : q.mark? = some mark) {xs ys : List (List Char)}
    (cells : ∀ s ∈ xs, Cell q mark s) (cells' : ∀ s ∈ ys, Cell q mark s)
    (same : behindCommas xs = behindCommas ys) : xs = ys := by
  induction xs generalizing ys with
  | nil =>
    cases ys with
    | nil => rfl
    | cons t ys => cases same
  | cons s xs ih =>
    cases ys with
    | nil => cases same
    | cons t ys =>
      obtain ⟨cell, others⟩ := List.forall_mem_cons.1 cells
      obtain ⟨cell', others'⟩ := List.forall_mem_cons.1 cells'
      have fronts : s ++ behindCommas xs = t ++ behindCommas ys := by
        simpa [behindCommas] using same
      obtain ⟨rfl, rest⟩ := cell.cut styled cell' (atComma_behindCommas xs)
        (atComma_behindCommas ys) fronts
      rw [ih others others' rest]

/-- Values with commas between them are told apart. -/
theorem eq_of_intercalate_eq (styled : q.mark? = some mark) {xs ys : List (List Char)}
    (cells : ∀ s ∈ xs, Cell q mark s) (cells' : ∀ s ∈ ys, Cell q mark s)
    (same : List.intercalate [',', ' '] xs = List.intercalate [',', ' '] ys) : xs = ys := by
  obtain _ | ⟨s, xs⟩ := xs <;> obtain _ | ⟨t, ys⟩ := ys
  · rfl
  · rw [intercalate_cons] at same
    exact absurd (List.append_eq_nil_iff.1 same.symm).1 (cells' t (.head _)).ne_nil
  · rw [intercalate_cons] at same
    exact absurd (List.append_eq_nil_iff.1 same).1 (cells s (.head _)).ne_nil
  · rw [intercalate_cons, intercalate_cons] at same
    refine eq_of_behindCommas_eq styled cells cells' ?_
    rw [behindCommas, behindCommas, List.flatMap_cons, List.flatMap_cons, List.append_assoc,
      List.append_assoc]
    exact congrArg _ same

/-- A text that a field is written as in the style. -/
def Writes (q : Quote) (s : List Char) : Prop :=
  ∃ (f : Field) (sink : String), f.appendText q sink = (.ok (), sink ++ String.ofList s)

theorem Writes.cell (styled : q.mark? = some mark) (writes : Writes q s) : Cell q mark s := by
  obtain ⟨f, sink, written⟩ := writes
  obtain ⟨s', appended, shape⟩ := f.appendText_eq_ok styled written
  obtain rfl : s = s' := by
    have chars := congrArg String.toList appended
    rw [String.toList_append, String.toList_append, List.append_cancel_left_eq,
      String.toList_ofList, String.toList_ofList] at chars
    exact chars
  obtain ⟨-, rfl⟩ | ⟨-, some, plain⟩ | ⟨-, told, -, rfl⟩ := shape
  · exact .plain (by decide) (by decide)
  · exact .plain some plain
  · exact .quoted told

def ended : Field where
  bytes := [0x02, 0x61, 0x27]
  index := 0
  type := ⟨{ type := .varchar, length := some 4, charset := "latin1" }, some .latin1⟩
  location := packLocation 0 3

end Record

end GroupedTables
