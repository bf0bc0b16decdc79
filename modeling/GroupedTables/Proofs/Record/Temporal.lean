import GroupedTables.Proofs.Record.Nulls

/-!
# Dates and times kept in records

A date, a moment and a time are one integer each, and division finds the parts again as long as
each part stays below the unit of the next. The bytes of a field have room for the latest of them
with a bit to spare, which is the sign; only times use it. So what a setter is given is what is
written when the field is read, wherever in whatever record it lies.
-/

namespace GroupedTables.Record

open Text

variable {i n width : Nat} {v : Int} {type : FieldType} {kind : DataType} {f : Field}
  {s : Setting} {cs : List Char}

theorem signedZeroFilled_eq_lastDigits (some : 0 < width) (small : n < 10 ^ width) :
    signedZeroFilled width n = lastDigits width n :=
  zeroFilled_eq_lastDigits some small

/-- A part of an integer that is not negative. -/
theorem tmod_tdiv_eq (nonneg : 0 ≤ v) (unit bound : Nat) :
    (v.tdiv unit).tmod bound = v / unit % bound := by
  have quotient : 0 ≤ v.tdiv unit := Int.tdiv_nonneg nonneg (Int.natCast_nonneg unit)
  rw [Int.tmod_eq_emod_of_nonneg quotient, Int.tdiv_eq_ediv_of_nonneg nonneg]

/-- A date as `YYYY-MM-DD`. -/
def dashedDate (year month day : Nat) : List Char :=
  lastDigits 4 year ++ '-' :: lastDigits 2 month ++ '-' :: lastDigits 2 day

/-- A time as `HH:MM:SS`, with so many digits for the hour. -/
def clockTime (width hour minute second : Nat) : List Char :=
  lastDigits width hour ++ ':' :: lastDigits 2 minute ++ ':' :: lastDigits 2 second

/-- Years of four digits are far from the bits that four bytes lose. -/
theorem encodeDate_eq {year month day : Nat} (y : year < 10000) (m : month < 16) (d : day < 32) :
    encodeDate year month day = (year * 512 + month * 32 + day : Nat) := by
  have small : year * 512 + month * 32 + day < UInt32.size := by
    unfold UInt32.size
    omega
  exact congrArg Int.ofNat (Nat.mod_eq_of_lt small)

theorem encodeDateTime_eq {year month day hour minute second : Nat} (y : year < 10000)
    (mo : month < 100) (d : day < 100) (h : hour < 100) (mi : minute < 100) (se : second < 100) :
    encodeDateTime year month day hour minute second =
      year * 10000000000 + month * 100000000 + day * 1000000 + hour * 10000 + minute * 100 +
        second := by
  refine Word.signed_of_holds (decide_eq_true ?_)
  unfold Word.least Word.greatest
  omega

theorem dateText_encodeDate {year month day : Nat} (y : year < 10000) (m : month < 16)
    (d : day < 32) : (dateText (encodeDate year month day)).toList = dashedDate year month day := by
  have is := encodeDate_eq y m d
  have nonneg : 0 ≤ encodeDate year month day := by omega
  have years : (encodeDate year month day).tdiv 512 = year := by
    rw [Int.tdiv_eq_ediv_of_nonneg nonneg]
    omega
  have months : ((encodeDate year month day).tdiv 32).tmod 16 = month := by
    refine (tmod_tdiv_eq nonneg 32 16).trans ?_
    omega
  have days : (encodeDate year month day).tmod 32 = day := by
    rw [Int.tmod_eq_emod_of_nonneg nonneg]
    omega
  rw [dateText, years, months, days, String.toList_ofList,
    signedZeroFilled_eq_lastDigits (by decide) y,
    signedZeroFilled_eq_lastDigits (by decide) (show month < 10 ^ 2 by omega),
    signedZeroFilled_eq_lastDigits (by decide) (show day < 10 ^ 2 by omega), dashedDate]

theorem dateTimeText_encodeDateTime {year month day hour minute second : Nat} (y : year < 10000)
    (mo : month < 100) (d : day < 100) (h : hour < 100) (mi : minute < 100) (se : second < 100) :
    (dateTimeText (encodeDateTime year month day hour minute second)).toList =
      dashedDate year month day ++ ' ' :: clockTime 2 hour minute second := by
  have is := encodeDateTime_eq y mo d h mi se
  have nonneg : 0 ≤ encodeDateTime year month day hour minute second := by omega
  have years : (encodeDateTime year month day hour minute second).tdiv 10000000000 = year := by
    rw [Int.tdiv_eq_ediv_of_nonneg nonneg]
    omega
  have part (unit : Nat) {n : Nat} (small : n < 100)
      (here : encodeDateTime year month day hour minute second / unit % 100 = n) :
      signedZeroFilled 2 (((encodeDateTime year month day hour minute second).tdiv unit).tmod 100) =
        lastDigits 2 n := by
    rw [← signedZeroFilled_eq_lastDigits (by decide) small, ← here]
    exact congrArg _ (tmod_tdiv_eq nonneg unit 100)
  have months := part 100000000 mo (by omega)
  have days := part 1000000 d (by omega)
  have hours := part 10000 h (by omega)
  have minutes := part 100 mi (by omega)
  have seconds := part 1 se (by omega)
  push_cast at months days hours minutes seconds
  unfold dateTimeText
  dsimp only
  rw [years, months, days, hours, minutes, seconds, String.toList_ofList,
    signedZeroFilled_eq_lastDigits (by decide) y, dashedDate, clockTime]
  simp only [List.append_assoc, List.cons_append]

theorem natAbs_encodeTime (hour : Int) (minute second : Nat) :
    (encodeTime hour minute second).natAbs = hour.natAbs * 10000 + minute * 100 + second := by
  unfold encodeTime
  dsimp only
  split <;> omega

theorem encodeTime_neg_iff {hour : Int} {minute second : Nat} :
    encodeTime hour minute second < 0 ↔ hour < 0 := by
  unfold encodeTime
  dsimp only
  split <;> omega

/-- Hours are two digits or three. -/
theorem zeroFilled_hour {hour : Nat} (small : hour < 1000) :
    zeroFilled 2 hour = lastDigits (if hour < 100 then 2 else 3) hour := by
  split
  case isTrue short => exact zeroFilled_eq_lastDigits (by decide) short
  case isFalse long =>
    have wide : 3 ≤ (digits hour).length := by
      have more := mt (Nat.length_toDigits_le_iff (b := 10) (by decide) (Nat.two_pos)).1 long
      exact Nat.not_le.1 more
    rw [← zeroFilled_eq_lastDigits (by decide) small, zeroFilled_eq_digits wide,
      zeroFilled_eq_digits (Nat.le_of_succ_le wide)]

theorem timeText_encodeTime {hour : Int} {minute second : Nat} (h : hour.natAbs ≤ 838)
    (mi : minute < 60) (se : second < 60) :
    (timeText (encodeTime hour minute second)).toList = (if hour < 0 then ['-'] else []) ++
      clockTime (if hour.natAbs < 100 then 2 else 3) hour.natAbs minute second := by
  have hours : (hour.natAbs * 10000 + minute * 100 + second) / 10000 = hour.natAbs := by omega
  have minutes : (hour.natAbs * 10000 + minute * 100 + second) / 100 % 100 = minute := by omega
  have seconds : (hour.natAbs * 10000 + minute * 100 + second) % 100 = second := by omega
  unfold timeText
  dsimp only
  rw [natAbs_encodeTime, hours, minutes, seconds, String.toList_ofList,
    zeroFilled_hour (by omega),
    zeroFilled_eq_lastDigits (by decide) (show minute < 10 ^ 2 by omega),
    zeroFilled_eq_lastDigits (by decide) (show second < 10 ^ 2 by omega), clockTime]
  simp only [encodeTime_neg_iff, List.append_assoc]

/-- The field is written as the text when no quotes are asked for. -/
def Field.WrittenAs (f : Field) (cs : List Char) : Prop :=
  ∀ sink, f.appendText .none sink = (.ok (), sink ++ String.ofList cs)

theorem Field.writtenAs_of_valueText (filled : f.isNull = false)
    (text : f.valueText .none = .ok cs) : f.WrittenAs cs := by
  intro sink
  rw [Field.appendText, if_neg (by rw [filled]; exact Bool.false_ne_true), text]
  change (_, sink ++ String.ofList ([] ++ cs ++ [])) = _
  rw [List.nil_append, List.append_nil]

/-- A setter of any field of the type keeps the text: it is what is written wherever the field is
read. -/
structure Setting.Keeps (kind : DataType) (s : Setting) (cs : List Char) : Prop where
  /-- The setter succeeds. Its bytes are written as the text in any record and at any place. -/
  stored : ∀ (b : Builder) (i : Nat) (type : FieldType), b.layout.fields[i]? = some type →
    type.type = kind → ∃ bytes, s.set b i = .ok (b.put i (some bytes)) ∧
      ∀ f : Field, f.type = type → f.Spans bytes → f.WrittenAs cs
  /-- If it is the last one to succeed on a field, the field is found in the record that is built
  if its end has room in the footer, and is written as the text. -/
  read : ∀ (l : Layout) (calls : List (Nat × Setting)) (i : Nat) (type : FieldType),
    l.fields[i]? = some type → type.type = kind →
    Builder.lastSetting i (.ofLayout l) calls = some s →
    (Builder.ofCalls l calls).endOf i < UInt32.size →
      ∃ f, l.read (Builder.ofCalls l calls).build i = .ok f ∧ f.type = type ∧ f.index = i ∧
        f.WrittenAs cs

theorem Setting.Stores.eq_of_integer {p : Option (List UInt8)} (stores : s.Stores type p)
    (value : s.integer? = some v) (fixed : type.type.fixedWidth? = some width) :
    p = some (littleEndian v width) := by
  cases stores with
  | null | decimal | bytes | string => cases value
  | integer value' fixed' =>
    obtain rfl := Option.some.inj (value.symm.trans value')
    obtain rfl := Option.some.inj (fixed.symm.trans fixed')
    rfl

/-- What is said of an integer that fits in the bytes of a type is kept in fields of the type. -/
theorem Setting.keeps_of_integer (value : s.integer? = some v)
    (fixed : kind.fixedWidth? = some width) (fits : FitsBytes width v)
    (text : ∀ f : Field, f.type.type = kind → f.signed = .ok v → f.valueText .none = .ok cs) :
    s.Keeps kind cs := by
  obtain ⟨least, most⟩ := DataType.fixedWidth?_bounds fixed
  have filled := littleEndian_ne_nil v least
  have written (f : Field) (typed : f.type.type = kind) (spans : f.Spans (littleEndian v width)) :
      f.WrittenAs cs := by
    have signed := spans.signed_integer least most
    rw [bmod_eq_of_fits least fits] at signed
    exact Field.writtenAs_of_valueText (spans.isNull filled) (text f typed signed)
  constructor
  case stored =>
    intro b i type found typed
    subst typed
    have set : b.setInt i v = .ok _ := Builder.setInt_eq_ok.2 ⟨type, width, found, fixed, rfl⟩
    refine ⟨_, (Builder.set_eq_setInt value).trans set, ?_⟩
    intro f same spans
    exact written f (congrArg FieldType.type same) spans
  case read =>
    intro l calls i type found typed last room
    subst typed
    obtain ⟨p, there, stores⟩ :=
      Builder.payload_foldl_after (Builder.complete_ofLayout l) found calls
    rw [last] at stores
    obtain rfl := stores.eq_of_integer value fixed
    rw [← Builder.layout_ofCalls l calls] at found
    obtain ⟨f, read, same, index, -, spans⟩ :=
      Builder.exists_read_of_endOf (Builder.complete_ofCalls l calls) room found there
    rw [Builder.layout_ofCalls] at read
    exact ⟨f, read, same, index, written f (congrArg FieldType.type same) (spans filled).1⟩

/-- Years of four digits leave the sign bit of three bytes alone. -/
theorem Setting.keeps_date {year month day : Nat} (y : year < 10000) (m : month < 16)
    (d : day < 32) : (Setting.date year month day).Keeps .date (dashedDate year month day) := by
  have fits : FitsBytes 3 (encodeDate year month day) := by
    rw [encodeDate_eq y m d]
    norm_num [FitsBytes]
    omega
  refine keeps_of_integer rfl rfl fits fun f typed signed => ?_
  rw [Field.valueText, typed, signed]
  exact congrArg Except.ok (dateText_encodeDate y m d)

theorem Setting.keeps_dateTime {year month day hour minute second : Nat} (y : year < 10000)
    (mo : month < 100) (d : day < 100) (h : hour < 100) (mi : minute < 100) (se : second < 100) :
    (Setting.dateTime year month day hour minute second).Keeps .dateTime
      (dashedDate year month day ++ ' ' :: clockTime 2 hour minute second) := by
  have fits : FitsBytes 8 (encodeDateTime year month day hour minute second) := by
    rw [encodeDateTime_eq y mo d h mi se]
    norm_num [FitsBytes]
    omega
  refine keeps_of_integer rfl rfl fits fun f typed signed => ?_
  rw [Field.valueText, typed, signed]
  exact congrArg Except.ok (dateTimeText_encodeDateTime y mo d h mi se)

/-- Times of 838 hours are the longest that three bytes hold with their sign. -/
theorem Setting.keeps_time {hour : Int} {minute second : Nat} (h : hour.natAbs ≤ 838)
    (mi : minute < 60) (se : second < 60) :
    (Setting.time hour minute second).Keeps .time ((if hour < 0 then ['-'] else []) ++
      clockTime (if hour.natAbs < 100 then 2 else 3) hour.natAbs minute second) := by
  have magnitude := natAbs_encodeTime hour minute second
  have fits : FitsBytes 3 (encodeTime hour minute second) := by
    norm_num [FitsBytes]
    omega
  refine keeps_of_integer rfl rfl fits fun f typed signed => ?_
  rw [Field.valueText, typed, signed]
  exact congrArg Except.ok (timeText_encodeTime h mi se)

/-- A date, a moment or a time that is set in a field of its type is written as it was set, in any
record and at any place in it, as long as each part has room: four digits for a year, four bits for
the month of a date and five for its day, and two digits for any other part. A time has the sign of
its hour, and three digits for the hour if it needs them. -/
theorem temporal_kept :
    (∀ year month day : Nat, year < 10000 → month < 16 → day < 32 →
      (Setting.date year month day).Keeps .date (dashedDate year month day)) ∧
    (∀ year month day hour minute second : Nat, year < 10000 → month < 100 → day < 100 →
      hour < 100 → minute < 100 → second < 100 →
      (Setting.dateTime year month day hour minute second).Keeps .dateTime
        (dashedDate year month day ++ ' ' :: clockTime 2 hour minute second)) ∧
    ∀ (hour : Int) (minute second : Nat), hour.natAbs ≤ 838 → minute < 60 → second < 60 →
      (Setting.time hour minute second).Keeps .time ((if hour < 0 then ['-'] else []) ++
        clockTime (if hour.natAbs < 100 then 2 else 3) hour.natAbs minute second) := by
  refine ⟨?date, ?dateTime, ?time⟩
  case date =>
    intro year month day y m d
    exact Setting.keeps_date y m d
  case dateTime =>
    intro year month day hour minute second y mo d h mi se
    exact Setting.keeps_dateTime y mo d h mi se
  case time =>
    intro hour minute second h mi se
    exact Setting.keeps_time h mi se

def dated : Layout :=
  ⟨[⟨.ofType .int, none⟩, ⟨.ofType .date, none⟩, ⟨.ofType .time, none⟩, ⟨.ofType .dateTime, none⟩]⟩

/-- The latest date and moment, and the longest time below zero. The time is not set again, since
a decimal does not fit in it, and the number is null in the end. -/
def latest : List (Nat × Setting) :=
  [(3, .dateTime 9999 99 99 99 99 99), (0, .int 7), (1, .date 9999 15 31), (2, .time (-838) 59 59),
    (2, .decimal ⟨5, 0⟩), (0, .null)]

theorem temporal_kept_latest :
    (∃ f, dated.read (Builder.ofCalls dated latest).build 1 = .ok f ∧
      f.appendText .none "<" = (.ok (), "<9999-15-31")) ∧
    (∃ f, dated.read (Builder.ofCalls dated latest).build 2 = .ok f ∧
      f.appendText .none "<" = (.ok (), "<-838:59:59")) ∧
    ∃ f, dated.read (Builder.ofCalls dated latest).build 3 = .ok f ∧
      f.appendText .none "<" = (.ok (), "<9999-99-99 99:99:99") := by
  obtain ⟨date, dateTime, time⟩ := temporal_kept
  refine ⟨?date, ?time, ?dateTime⟩
  case date =>
    have kept := date 9999 15 31 (by decide) (by decide) (by decide)
    obtain ⟨f, read, -, -, written⟩ := kept.read dated latest 1 _ rfl rfl (by decide +kernel)
      (by decide +kernel)
    exact ⟨f, read, written "<"⟩
  case time =>
    have kept := time (-838) 59 59 (by decide) (by decide) (by decide)
    obtain ⟨f, read, -, -, written⟩ := kept.read dated latest 2 _ rfl rfl (by decide +kernel)
      (by decide +kernel)
    exact ⟨f, read, written "<"⟩
  case dateTime =>
    have kept := dateTime 9999 99 99 99 99 99 (by decide) (by decide) (by decide) (by decide)
      (by decide) (by decide)
    obtain ⟨f, read, -, -, written⟩ := kept.read dated latest 3 _ rfl rfl (by decide +kernel)
      (by decide +kernel)
    exact ⟨f, read, written "<"⟩

end GroupedTables.Record
