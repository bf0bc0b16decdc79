import GroupedTables.Fault.Basic
import GroupedTables.Text.Digits
import GroupedTables.Word

/-!
# Dates and times in records

Dates and times are stored as one integer each and written out again from it. Nothing
checks that a stored integer is a date: a part is what division leaves, towards zero, so
the parts of a negative number carry its sign. Only seconds since 1970 are put through the
calendar.
-/

namespace GroupedTables.Record

open Text

/-- A date as an integer: nine bits above the month, five above the day. It is reckoned in
four bytes, so the bits of a year beyond those are lost. -/
def encodeDate (year month day : Nat) : Int := ((year * 512 + month * 32 + day) % UInt32.size : Nat)

/-- A date and time as the digits `YYYYMMDDHHMMSS`, reckoned in a word. -/
def encodeDateTime (year month day hour minute second : Nat) : Int :=
  Word.signed <|
    year * 10000000000 + month * 100000000 + day * 1000000 + hour * 10000 + minute * 100 + second

/-- A time as the digits `HHMMSS`, with the sign of the hour. -/
def encodeTime (hour : Int) (minute second : Nat) : Int :=
  let magnitude : Int := hour.natAbs * 10000 + minute * 100 + second
  if hour < 0 then -magnitude else magnitude

/-- A year as the distance from 1900. The year zero stays zero. -/
def encodeYear (year : Nat) : Int := if year = 0 then 0 else year - 1900

def dateText (value : Int) : String :=
  String.ofList <|
    signedZeroFilled 4 (value.tdiv 512) ++ '-' :: signedZeroFilled 2 ((value.tdiv 32).tmod 16) ++
      '-' :: signedZeroFilled 2 (value.tmod 32)

def dateTimeText (value : Int) : String :=
  let part (unit : Int) : List Char := signedZeroFilled 2 ((value.tdiv unit).tmod 100)
  String.ofList <|
    signedZeroFilled 4 (value.tdiv 10000000000) ++ '-' :: part 100000000 ++ '-' :: part 1000000 ++
      ' ' :: part 10000 ++ ':' :: part 100 ++ ':' :: part 1

/-- The text of a stored time: its sign, then the parts of its magnitude. -/
def timeText (value : Int) : String :=
  let sign := if value < 0 then ['-'] else []
  let n := value.natAbs
  String.ofList <|
    sign ++ zeroFilled 2 (n / 10000) ++ ':' :: zeroFilled 2 (n / 100 % 100) ++
      ':' :: zeroFilled 2 (n % 100)

def yearText (value : Int) : String := if value = 0 then "0000" else toString (1900 + value)

structure CivilDate where
  year : Int
  month : Nat
  day : Nat
  deriving Repr, DecidableEq

/-- The calendar day so many days after the first of January 1970. Years are counted from
March here, so that the leap day is the last of its year, in cycles of 400 years. -/
def CivilDate.ofDays (days : Int) : CivilDate :=
  let shifted := days + 719468
  let era := shifted.fdiv 146097
  let dayOfEra := (shifted.fmod 146097).toNat
  let yearOfEra := (dayOfEra - dayOfEra / 1460 + dayOfEra / 36524 - dayOfEra / 146096) / 365
  let dayOfYear := dayOfEra - (365 * yearOfEra + yearOfEra / 4 - yearOfEra / 100)
  let fromMarch := (5 * dayOfYear + 2) / 153
  let month := if fromMarch < 10 then fromMarch + 3 else fromMarch - 9
  { year := era * 400 + yearOfEra + (if month ≤ 2 then 1 else 0)
    month
    day := dayOfYear - (153 * fromMarch + 2) / 5 + 1 }

def CivilDate.inRange (d : CivilDate) : Bool := -262143 ≤ d.year && d.year ≤ 262142

/-- A year of the calendar: four digits, or a sign and as many as it takes. -/
def calendarYear (year : Int) : List Char :=
  if 0 ≤ year ∧ year ≤ 9999 then zeroFilled 4 year.toNat
  else (if year < 0 then '-' else '+') :: zeroFilled 4 year.natAbs

/-- The text of a moment given in seconds since 1970, unless it lies beyond the calendar. -/
def timestampText (seconds : Int) : Except RowDefect String :=
  let date := CivilDate.ofDays (seconds.fdiv 86400)
  let second := (seconds.fmod 86400).toNat
  if date.inRange then
    .ok <| String.ofList <|
      calendarYear date.year ++ '-' :: zeroFilled 2 date.month ++ '-' :: zeroFilled 2 date.day ++
        ' ' :: zeroFilled 2 (second / 3600) ++ ':' :: zeroFilled 2 (second / 60 % 60) ++
        ':' :: zeroFilled 2 (second % 60)
  else .error (.timestampOutOfRange seconds)

end GroupedTables.Record
