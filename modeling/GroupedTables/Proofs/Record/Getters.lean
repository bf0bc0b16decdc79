import GroupedTables.Proofs.Action
import GroupedTables.Proofs.Decimal.Guarded
import GroupedTables.Proofs.Record.Guarded

/-!
# Fields read, guarded

What a location says is checked against the record by every getter, and what the length in front
of a payload says against the location, so a field may have any location. No getter traps, and
neither does rendering what it gives; all of them fail in one of three ways.
-/

namespace GroupedTables

namespace Fault

/-- The fault is one that reading a field can end with: the field is null, its text cannot be
decoded, or the record does not match its layout. -/
def OfReading (f : Fault) : Prop := f.code ∈ ["ROW_001", "ROW_002", "ROW_003"]

theorem ofReading_nullValue (field : Nat) : (nullValue field).OfReading := .head _

theorem ofReading_undecodable (reason : String) : (undecodable reason).OfReading :=
  .tail _ (.head _)

theorem ofReading_invalidRow (defect : RowDefect) : (invalidRow defect).OfReading :=
  .tail _ (.tail _ (.head _))

end Fault

namespace Machine

variable {α β : Type}

/-- The run does not trap. It gives what the plain computation gives, and that fails in no other
way than reading a field can. -/
structure Safe (run : Machine Fault α) (plain : Except Fault α) : Prop where
  gives : run.Gives plain
  limits : Check.Limits Fault.OfReading plain

variable {run : Machine Fault α} {plain : Except Fault α} {next : α → Machine Fault β}
  {rest : α → Except Fault β} {c : Prop} [Decidable c] {a : α} {f : Fault}

theorem safe_pure (a : α) : Safe (pure a) (.ok a) := ⟨gives_pure a, Check.limits_ok a⟩

theorem safe_throw (h : f.OfReading) : Safe (throw f : Machine Fault α) (.error f) :=
  ⟨rfl, Check.limits_error h⟩

theorem Safe.bind (first : Safe run plain) (then_ : ∀ a, plain = .ok a → Safe (next a) (rest a)) :
    Safe (run >>= next) (plain >>= rest) :=
  ⟨first.gives.bind fun a same => (then_ a same).gives,
    first.limits.bind fun a same => (then_ a same).limits⟩

/-- A step that is not one of the plain computation. -/
theorem Safe.step {plain : Except Fault β} (first : run.Gives (.ok a))
    (then_ : Safe (next a) plain) : Safe (run >>= next) plain :=
  ⟨first.step then_.gives, then_.limits⟩

theorem Safe.map {g : α → β} (first : Safe run plain) : Safe (g <$> run) (plain.map g) :=
  ⟨first.gives.map, first.limits.map⟩

/-- What is computed from a value may take steps of its own. -/
theorem Safe.compute {g : α → β} (first : Safe run plain)
    (then_ : ∀ a, plain = .ok a → (next a).Gives (.ok (g a))) :
    Safe (run >>= next) (plain.map g) := by
  have plainly : plain.map g = plain >>= fun a => .ok (g a) := by cases plain <;> rfl
  rw [plainly]
  exact first.bind fun a same => ⟨then_ a same, Check.limits_ok _⟩

theorem Safe.ite {other : Machine Fault α} {plain' : Except Fault α} (yes : c → Safe run plain)
    (no : ¬c → Safe other plain') :
    Safe (if c then run else other) (if c then plain else plain') := by
  split
  · exact yes ‹_›
  · exact no ‹_›

/-- A check that both make. -/
theorem Safe.guard {next : Unit → Machine Fault α} {rest : Unit → Except Fault α} (h : f.OfReading)
    (then_ : ¬c → Safe (next ()) (rest ())) :
    Safe (if c then throw f >>= next else next ()) (if c then throw f >>= rest else rest ()) :=
  Safe.ite (fun _ => safe_throw h) then_

/-- A defect of a record is a fault of reading it. -/
theorem Gives.safe {run : Machine RowDefect α} {plain : Except RowDefect α}
    (gives : run.Gives plain) :
    Safe (run.mapError Fault.invalidRow) (liftM plain) := by
  refine ⟨gives.mapError, ?_⟩
  cases plain with
  | ok a => exact Check.limits_ok a
  | error d => exact Check.limits_error (Fault.ofReading_invalidRow d)

/-- A value, or what stands in place of it after an error. -/
def recovered {ε : Type} (handle : ε → α) : Except ε α → α
  | .ok a => a
  | .error e => handle e

/-- Goes on with something else in place of an error. -/
def recover {ε ε' : Type} (handle : ε → α) (run : Machine ε α) : Machine ε' α :=
  ExceptT.mk (run.run.map fun outcome => .ok (recovered handle outcome))

theorem Gives.safe_recover {ε : Type} {run : Machine ε α} {plain : Except ε α} (handle : ε → α)
    (gives : run.Gives plain) : Safe (run.recover handle) (.ok (recovered handle plain)) := by
  have unfolded : (run.recover handle : Machine Fault α).run =
      run.run.map fun outcome => .ok (recovered handle outcome) := rfl
  refine ⟨?_, Check.limits_ok _⟩
  rw [Gives, unfolded, gives]
  rfl

end Machine

namespace Record

open Machine Text

namespace Guarded

/-- The text of bytes. A byte that does not belong to it is looked up again. -/
def decode (charset : Charset) (bytes : List UInt8) : Machine CodingError String :=
  let plain := String.ofList (bytes.map fun b => Char.ofNat b.toNat)
  match charset with
  | .utf8 => liftM (Charset.utf8.decode bytes)
  | .latin1 => return plain
  | .ascii =>
    match bytes.findIdx? fun b => 0x7F < b.toNat with
    | some position => do throw (.invalidByte .ascii (← entry bytes position) position)
    | none => return plain

def dateText (value : Int) : Machine Fault String := do
  let year ← quotient value 512
  let month ← remainder (← quotient value 32) 16
  let day ← remainder value 32
  return String.ofList <|
    signedZeroFilled 4 year ++ '-' :: signedZeroFilled 2 month ++ '-' :: signedZeroFilled 2 day

def dateTimeText (value : Int) : Machine Fault String := do
  let year ← quotient value 10000000000
  let month ← remainder (← quotient value 100000000) 100
  let day ← remainder (← quotient value 1000000) 100
  let hour ← remainder (← quotient value 10000) 100
  let minute ← remainder (← quotient value 100) 100
  let second ← remainder value 100
  return String.ofList <|
    signedZeroFilled 4 year ++ '-' :: signedZeroFilled 2 month ++ '-' :: signedZeroFilled 2 day ++
      ' ' :: signedZeroFilled 2 hour ++ ':' :: signedZeroFilled 2 minute ++
      ':' :: signedZeroFilled 2 second

def yearText (value : Int) : Machine Fault String :=
  if value = 0 then pure "0000" else return toString (← addSigned 1900 value)

/-- The offset and width of a field that is not null and lies within the record. -/
def extent (f : Field) : Machine Fault (Nat × Nat) := do
  if f.isNull then throw (.nullValue f.index)
  let offset := locationOffset f.location
  let width := locationWidth f.location
  -- this sum may overflow, and the record ends before it if it does
  if Word.bound ≤ offset + width ∨ f.bytes.length < offset + width then
    throw (.invalidRow (.pastEnd f.index offset (offset + width) f.bytes.length))
  return (offset, width)

/-- The field as an integer in two's complement. -/
def signed (f : Field) : Machine Fault Int := do
  let (offset, width) ← extent f
  (signedAt f.bytes offset width).mapError .invalidRow

def unsigned (f : Field) : Machine Fault Nat := do
  let (offset, width) ← extent f
  (unsignedAt f.bytes offset width).mapError .invalidRow

/-- The bytes of the field, without the length in front of them. -/
def payload (f : Field) : Machine Fault (List UInt8) := do
  let (offset, width) ← extent f
  let before := f.type.lengthWidth
  if before = 0 then
    return ← slice f.bytes offset (← add offset width)
  if width < before then
    throw (.invalidRow (.shorterThanLength f.index))
  let length ← (unsignedAt f.bytes offset before).mapError .invalidRow
  let spanned ← sub width before
  if length ≠ spanned then
    throw (.invalidRow (.lengthMismatch f.index length spanned))
  slice f.bytes (← add offset before) (← add offset width)

/-- A four-byte float from the low bits of the field. -/
def single (f : Field) : Machine Fault Floating.Single := (fun n => ⟨UInt32.ofInt n⟩) <$> signed f

/-- An eight-byte float from the bits of the field. -/
def double (f : Field) : Machine Fault Floating.Double := (fun n => ⟨UInt64.ofInt n⟩) <$> signed f

def packed (f : Field) : Machine Fault (List UInt8) := do
  let (offset, width) ← extent f
  slice f.bytes offset (← add offset width)

def decimal (f : Field) : Machine Fault Decimal := do
  let bytes ← packed f
  (Decimal.Guarded.decode bytes f.type.descriptor.precision f.type.descriptor.scale).mapError
    .invalidRow

def string (f : Field) : Machine Fault String := do
  let bytes ← payload f
  (decode f.type.textCharset bytes).mapError CodingError.fault

/-- The distance of a year from 1900, in one byte. -/
def year (f : Field) : Machine Fault Int := (· % 256) <$> signed f

/-- The value of a field that is not null, without quotes around it. -/
def valueText (f : Field) (q : Quote) : Machine Fault (List Char) :=
  match f.type.type with
  | .char | .varchar | .text => do
    let bytes ← payload f
    ((fun text => q.escape text.toList) <$> decode f.type.textCharset bytes).recover fun e =>
      q.escape (Field.undecodableText e)
  | .decimal => do
    let bytes ← packed f
    let text ← (Decimal.Guarded.decodeText bytes f.type.descriptor.precision
      f.type.descriptor.scale).mapError .invalidRow
    return text.toList
  | .tinyInt | .smallInt | .mediumInt | .int | .bigInt =>
    if f.type.descriptor.isUnsigned then (fun n => (toString n).toList) <$> unsigned f
    else (fun n => (toString n).toList) <$> signed f
  | .float => (fun x => x.text.toList) <$> single f
  | .double => (fun x => x.text.toList) <$> double f
  | .binary | .varBinary | .blob => (fun bytes => bytes.flatMap Text.byteHex) <$> payload f
  | .date => do return (← dateText (← signed f)).toList
  | .dateTime => do return (← dateTimeText (← signed f)).toList
  | .time => (fun n => (timeText n).toList) <$> signed f
  | .timestamp => do
    let text ← liftM ((timestampText (← signed f)).mapError Fault.invalidRow)
    return text.toList
  | .year => do return (← yearText (← year f)).toList

/-- Appends the value to a text, in quotes where the style asks for them. -/
def appendText (f : Field) (q : Quote) (sink : String) : Except Trap (Except Fault Unit × String) :=
  if f.isNull then .ok (.ok (), sink ++ "NULL")
  else
    let around := q.around f.type.type
    (valueText f q).run.map fun
      | .ok text => (.ok (), sink ++ String.ofList (around ++ text ++ around))
      | .error e => (.error e, sink ++ String.ofList around)

variable {m n : Int}

theorem gives_quotient (positive : 0 < n) :
    Gives (quotient m n : Machine Fault Int) (.ok (m.tdiv n)) := by
  rw [quotient, if_neg (by omega)]
  exact gives_pure _

theorem gives_remainder (positive : 0 < n) :
    Gives (remainder m n : Machine Fault Int) (.ok (m.tmod n)) := by
  rw [remainder, if_neg (by omega)]
  exact gives_pure _

theorem gives_dateText (value : Int) : (dateText value).Gives (.ok (Record.dateText value)) := by
  refine (gives_quotient (by decide)).step ?_
  refine (gives_quotient (by decide)).step ((gives_remainder (by decide)).step ?_)
  exact (gives_remainder (by decide)).step (gives_pure _)

theorem gives_dateTimeText (value : Int) :
    (dateTimeText value).Gives (.ok (Record.dateTimeText value)) := by
  have part {unit : Int} (positive : 0 < unit) {next : Int → Machine Fault String} {text : String}
      (rest : (next ((value.tdiv unit).tmod 100)).Gives (.ok text)) :
      Gives (quotient value unit >>= fun n => remainder n 100 >>= next) (.ok text) :=
    (gives_quotient positive).step ((gives_remainder (by decide)).step rest)
  have last : value.tdiv 1 = value := Int.tdiv_one value
  refine (gives_quotient (by decide)).step ?_
  refine part (by decide) (part (by decide) (part (by decide) (part (by decide) ?_)))
  refine (gives_remainder (by decide)).step ?_
  unfold Record.dateTimeText
  dsimp only
  rw [last]
  exact gives_pure _

theorem gives_yearText {value : Int} (least : 0 ≤ value) (most : value < 256) :
    (yearText value).Gives (.ok (Record.yearText value)) := by
  unfold yearText Record.yearText
  split
  · exact gives_pure _
  · have fits : Word.holds (1900 + value) = true := by
      refine decide_eq_true ?_
      unfold Word.least Word.greatest
      omega
    rw [addSigned, if_pos fits]
    exact gives_pure _

theorem decodeSingle_eq (charset : Charset) (limit position : Nat) (bytes : List UInt8) :
    Charset.decodeSingle charset limit position bytes =
      match bytes.findIdx? fun b => limit < b.toNat with
      | some i => .error (.invalidByte charset (bytes[i]?.getD 0) (position + i))
      | none => .ok (bytes.map fun b => Char.ofNat b.toNat) := by
  induction bytes generalizing position with
  | nil => rfl
  | cons b rest ih =>
    rw [Charset.decodeSingle, List.findIdx?_cons]
    by_cases beyond : limit < b.toNat
    · rw [if_neg (Nat.not_le.2 beyond), if_pos (decide_eq_true beyond)]
      rfl
    · rw [if_pos (Nat.not_lt.1 beyond), if_neg (by simpa using beyond), ih]
      cases rest.findIdx? fun b => limit < b.toNat with
      | none => rfl
      | some i =>
        have place : position + 1 + i = position + (i + 1) := by omega
        dsimp only [Option.map_some]
        rw [place]
        rfl

theorem gives_decode (charset : Charset) (bytes : List UInt8) :
    (decode charset bytes).Gives (charset.decode bytes) := by
  cases charset with
  | utf8 => exact gives_lift _
  | latin1 =>
    have plainly := decodeSingle_eq .latin1 0xFF 0 bytes
    have none : (bytes.findIdx? fun b => decide (0xFF < b.toNat)) = none := by
      rw [List.findIdx?_eq_none_iff]
      intro b _
      have byte := b.toNat_lt
      exact decide_eq_false (by omega)
    rw [none] at plainly
    have decoded : Charset.latin1.decode bytes =
        (Charset.decodeSingle .latin1 0xFF 0 bytes).map String.ofList := rfl
    rw [decoded, plainly]
    exact gives_pure _
  | ascii =>
    have decoded : Charset.ascii.decode bytes =
        (Charset.decodeSingle .ascii 0x7F 0 bytes).map String.ofList := rfl
    rw [decoded, decodeSingle_eq, decode]
    cases found : bytes.findIdx? fun b => decide (0x7F < b.toNat) with
    | none => exact gives_pure _
    | some i =>
      have inside := (List.findIdx?_eq_some_iff_getElem.1 found).1
      refine (gives_entry (List.getElem?_eq_getElem inside)).step ?_
      dsimp only
      rw [List.getElem?_eq_getElem inside, Nat.zero_add]
      rfl

end Guarded

namespace Field

/-- A field that a machine can hold: its bytes are in memory, its location is a word, and its
digits are counted in a byte each. -/
structure Held (f : Field) : Prop where
  bytes : f.bytes.length < Word.bound
  location : f.location < Word.bound
  precision : f.type.descriptor.precision < 256
  scale : f.type.descriptor.scale < 256

variable {f : Field} {offset width : Nat}

theorem extent_eq_ok (found : f.extent = .ok (offset, width)) :
    offset + width ≤ f.bytes.length := by
  unfold Field.extent at found
  split at found
  · cases found
  · dsimp only at found
    split at found
    · cases found
    case isFalse inside =>
      cases found
      exact Nat.not_lt.1 inside

namespace Held

variable (held : f.Held)

include held

theorem safe_extent : Safe (Guarded.extent f) f.extent := by
  have fits : locationOffset f.location + locationWidth f.location < Word.bound := by
    have least := held.location
    unfold locationOffset locationWidth UInt32.size Word.bound at *
    omega
  unfold Guarded.extent Field.extent
  refine Safe.ite (fun _ => safe_throw (Fault.ofReading_nullValue _)) fun _ => ?_
  dsimp only
  by_cases beyond : f.bytes.length < locationOffset f.location + locationWidth f.location
  · rw [if_pos (.inr beyond), if_pos beyond]
    exact safe_throw (Fault.ofReading_invalidRow _)
  · rw [if_neg (not_or.2 ⟨Nat.not_le.2 fits, beyond⟩), if_neg beyond]
    exact safe_pure _

/-- What lies within the record can be added up. -/
theorem add_lt (found : f.extent = .ok (offset, width)) : offset + width < Word.bound :=
  Nat.lt_of_le_of_lt (extent_eq_ok found) held.bytes

theorem safe_signed : Safe (Guarded.signed f) f.signed :=
  held.safe_extent.bind fun _ found => (Guarded.gives_signedAt (held.add_lt found)).safe

theorem safe_unsigned : Safe (Guarded.unsigned f) f.unsigned :=
  held.safe_extent.bind fun _ found => (Guarded.gives_unsignedAt (held.add_lt found)).safe

theorem safe_packed : Safe (Guarded.packed f) f.packed := by
  refine held.safe_extent.compute fun ⟨offset, width⟩ found => ?_
  refine (gives_add (held.add_lt found)).step ?_
  have cut := gives_slice (ε := Fault) (Nat.le_add_right offset width) (extent_eq_ok found)
  rw [Nat.add_sub_cancel_left] at cut
  exact cut

theorem safe_payload : Safe (Guarded.payload f) f.payload := by
  refine held.safe_extent.bind fun ⟨offset, width⟩ found => ?_
  have inside := extent_eq_ok found
  have fits := held.add_lt found
  have cut (before : Nat) (less : before ≤ width) :
      Gives (slice f.bytes (offset + before) (offset + width) : Machine Fault (List UInt8))
        (.ok (span f.bytes (offset + before) (width - before))) := by
    have cut := gives_slice (ε := Fault) (Nat.add_le_add_left less offset) inside
    rw [Nat.add_sub_add_left] at cut
    exact cut
  refine Safe.ite (fun _ => ?_) fun _ => ?_
  · exact Safe.step (gives_add fits) ⟨cut 0 (Nat.zero_le _), Check.limits_ok _⟩
  refine Safe.guard (Fault.ofReading_invalidRow _) fun long => ?_
  have less := Nat.not_lt.1 long
  refine (Guarded.gives_unsignedAt (by omega)).safe.bind fun length _ => ?_
  refine Safe.step (gives_sub less) (Safe.guard (Fault.ofReading_invalidRow _) fun _ => ?_)
  refine Safe.step (gives_add (by omega)) (Safe.step (gives_add fits) ⟨cut _ less, ?_⟩)
  exact Check.limits_ok _

theorem safe_single : Safe (Guarded.single f) f.single := held.safe_signed.map

theorem safe_double : Safe (Guarded.double f) f.double := held.safe_signed.map

theorem safe_year : Safe (Guarded.year f) f.year := held.safe_signed.map

/-- The bytes of a decimal are in memory with those of the record. -/
theorem length_lt_of_packed {bytes : List UInt8} (found : f.packed = .ok bytes) :
    bytes.length < Word.bound := by
  unfold Field.packed at found
  cases extent : f.extent with
  | error e => rw [extent] at found; cases found
  | ok place =>
    rw [extent] at found
    cases found
    refine Nat.lt_of_le_of_lt (Nat.le_trans (List.length_take_le' ..) ?_) held.bytes
    rw [List.length_drop]
    exact Nat.sub_le ..

theorem safe_decimal : Safe (Guarded.decimal f) f.decimal :=
  held.safe_packed.bind fun _ found =>
    (Decimal.Guarded.gives_decode (held.length_lt_of_packed found) held.precision held.scale).safe

theorem safe_string : Safe (Guarded.string f) f.string := by
  refine held.safe_payload.bind fun bytes _ => ?_
  refine ⟨(Guarded.gives_decode f.type.textCharset bytes).mapError, ?_⟩
  cases f.type.textCharset.decode bytes with
  | ok text => exact Check.limits_ok text
  | error e => exact Check.limits_error (Fault.ofReading_undecodable _)

theorem safe_valueText (q : Quote) : Safe (Guarded.valueText f q) (f.valueText q) := by
  unfold Guarded.valueText Field.valueText
  cases f.type.type with
  | char | varchar | text =>
    refine held.safe_payload.bind fun bytes _ => ?_
    have decoded := (Guarded.gives_decode f.type.textCharset bytes).map
      (g := fun text => q.escape text.toList)
    have safe := decoded.safe_recover fun e => q.escape (undecodableText e)
    unfold Quote.escapeBytes
    cases plain : f.type.textCharset.decode bytes <;>
    · rw [plain] at safe
      exact safe
  | decimal =>
    refine held.safe_packed.bind fun bytes found => ?_
    refine (Decimal.Guarded.gives_decodeText (held.length_lt_of_packed found) held.precision
      held.scale).safe.bind fun text _ => safe_pure _
  | tinyInt | smallInt | mediumInt | int | bigInt =>
    exact Safe.ite (fun _ => held.safe_unsigned.map) fun _ => held.safe_signed.map
  | float => exact held.safe_single.map
  | double => exact held.safe_double.map
  | binary | varBinary | blob => exact held.safe_payload.map
  | date =>
    exact held.safe_signed.compute fun n _ => (Guarded.gives_dateText n).step (gives_pure _)
  | dateTime =>
    exact held.safe_signed.compute fun n _ => (Guarded.gives_dateTimeText n).step (gives_pure _)
  | time => exact held.safe_signed.map
  | timestamp =>
    exact held.safe_signed.bind fun n _ => (gives_lift (timestampText n)).safe.bind fun text _ =>
      safe_pure _
  | year =>
    refine held.safe_year.compute fun n found => ?_
    have byte : 0 ≤ n ∧ n < 256 := by
      unfold Field.year at found
      cases signed : f.signed with
      | error e => rw [signed] at found; cases found
      | ok m =>
        rw [signed] at found
        cases found
        exact ⟨Int.emod_nonneg m (by decide), Int.emod_lt_of_pos m (by decide)⟩
    exact (Guarded.gives_yearText byte.1 byte.2).step (gives_pure _)

theorem appendText_eq (q : Quote) (sink : String) :
    Guarded.appendText f q sink = .ok (f.appendText q sink) := by
  unfold Guarded.appendText Field.appendText
  split
  · rfl
  · have gives : (Guarded.valueText f q).run = .ok (f.valueText q) := (held.safe_valueText q).gives
    dsimp only
    rw [gives]
    cases f.valueText q <;> rfl

theorem limits_appendText (q : Quote) (sink : String) :
    Check.Limits Fault.OfReading (f.appendText q sink).1 := by
  unfold Field.appendText
  split
  · exact Check.limits_ok _
  · have limits := (held.safe_valueText q).limits
    cases value : f.valueText q with
    | ok text => exact Check.limits_ok _
    | error e => exact Check.limits_error (limits e value)

end Held

/-- Every getter of the field, and rendering it under every style of quotes, is safe: no step of it
traps, and the only faults are those of reading. -/
structure ReadsSafely (f : Field) : Prop where
  signed : Safe (Guarded.signed f) f.signed
  unsigned : Safe (Guarded.unsigned f) f.unsigned
  single : Safe (Guarded.single f) f.single
  double : Safe (Guarded.double f) f.double
  decimal : Safe (Guarded.decimal f) f.decimal
  string : Safe (Guarded.string f) f.string
  payload : Safe (Guarded.payload f) f.payload
  year : Safe (Guarded.year f) f.year
  appendText : ∀ q sink, Guarded.appendText f q sink = .ok (f.appendText q sink) ∧
    Check.Limits Fault.OfReading (f.appendText q sink).1

theorem Held.readsSafely (held : f.Held) : f.ReadsSafely where
  signed := held.safe_signed
  unsigned := held.safe_unsigned
  single := held.safe_single
  double := held.safe_double
  decimal := held.safe_decimal
  string := held.safe_string
  payload := held.safe_payload
  year := held.safe_year
  appendText q sink := ⟨held.appendText_eq q sink, held.limits_appendText q sink⟩

end Field

end Record

end GroupedTables
