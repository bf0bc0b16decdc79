import GroupedTables.Proofs.Text.Bytes
import GroupedTables.Record.Charset

/-!
# Text read back in its charset

What a charset can encode it decodes to the same text. A one-byte charset does so character
by character, the other one as all text is read from its bytes.

It is the same the other way around: bytes that are decoded are the bytes of the text. Where
there is no text for bytes, or there are no bytes for a text, the first place where it fails is
reported, and nothing else is.
-/

namespace GroupedTables.Charset

variable {charset : Charset} {bytes : List UInt8} {limit position : Nat} {chars : List Char}
variable {e : CodingError}

/-- No one-byte charset has more code points than a byte has values. -/
theorem limit_lt (h : charset.limit? = some limit) : limit < 256 := by
  cases charset <;> cases h <;> decide

theorem decodeSingle_of_encodeSingle (small : limit < 256)
    (encoded : encodeSingle charset limit chars = .ok bytes) :
    decodeSingle charset limit position bytes = .ok chars := by
  induction chars generalizing bytes position with
  | nil => cases encoded; rfl
  | cons c rest ih =>
    rw [encodeSingle] at encoded
    split at encoded
    case isFalse => cases encoded
    case isTrue within =>
      cases later : encodeSingle charset limit rest with
      | error e => rw [later] at encoded; cases encoded
      | ok more =>
        rw [later] at encoded
        cases encoded
        have byte : (UInt8.ofNat c.toNat).toNat = c.toNat := Text.toNat_byte (by omega)
        rw [decodeSingle, byte, if_pos within, ih later, Char.ofNat_toNat]
        rfl

/-- What can be encoded is decoded to the same text. -/
theorem decode_of_encode {text : String} (encoded : charset.encode text = .ok bytes) :
    charset.decode bytes = .ok text := by
  unfold encode at encoded
  unfold decode
  cases limited : charset.limit? with
  | none =>
    rw [limited] at encoded
    cases encoded
    simp only [Text.ofBytes_textBytes]
    rfl
  | some limit =>
    rw [limited] at encoded
    simp only [decodeSingle_of_encodeSingle (limit_lt limited) encoded]
    exact congrArg Except.ok (String.ofList_toList ..)

-- In a one-byte charset every code point up to the last one is written, and the first one past it
-- ends the work.
section single

theorem all_within_or_first {α : Type} (number : α → Nat) (limit : Nat) (all : List α) :
    (∀ a ∈ all, number a ≤ limit) ∨ ∃ front a rest, all = front ++ a :: rest ∧
      (∀ b ∈ front, number b ≤ limit) ∧ limit < number a := by
  cases found : all.find? fun a => limit < number a with
  | none => exact .inl fun a inside => by simpa using List.find?_eq_none.1 found a inside
  | some a =>
    obtain ⟨beyond, front, rest, whole, before⟩ := List.find?_eq_some_iff_append.1 found
    exact .inr ⟨front, a, rest, whole, fun b inside => by simpa using before b inside,
      by simpa using beyond⟩

variable {front : List UInt8} {start : List Char}

theorem decodeSingle_append (rest : List UInt8) (within : ∀ b ∈ front, b.toNat ≤ limit) :
    decodeSingle charset limit position (front ++ rest) =
      (decodeSingle charset limit (position + front.length) rest).map
        (front.map (fun b => Char.ofNat b.toNat) ++ ·) := by
  induction front generalizing position with
  | nil =>
    rw [List.nil_append, List.length_nil, Nat.add_zero]
    cases decodeSingle charset limit position rest <;> rfl
  | cons b front ih =>
    have place : position + 1 + front.length = position + (b :: front).length := by
      rw [List.length_cons, Nat.add_assoc, Nat.add_comm 1]
    rw [List.cons_append, decodeSingle, if_pos (within b List.mem_cons_self),
      ih fun a inside => within a (List.mem_cons_of_mem b inside), place]
    cases decodeSingle charset limit (position + (b :: front).length) rest <;> rfl

theorem encodeSingle_append (rest : List Char) (within : ∀ c ∈ start, c.toNat ≤ limit) :
    encodeSingle charset limit (start ++ rest) = (encodeSingle charset limit rest).map
      (start.map (fun c => UInt8.ofNat c.toNat) ++ ·) := by
  induction start with
  | nil => cases later : encodeSingle charset limit rest <;> exact later
  | cons c start ih =>
    rw [List.cons_append, encodeSingle, if_pos (within c List.mem_cons_self),
      ih fun a inside => within a (List.mem_cons_of_mem c inside)]
    cases encodeSingle charset limit rest <;> rfl

theorem decodeSingle_all (within : ∀ b ∈ bytes, b.toNat ≤ limit) :
    decodeSingle charset limit position bytes = .ok (bytes.map fun b => Char.ofNat b.toNat) := by
  have whole : decodeSingle charset limit position (bytes ++ []) = _ :=
    decodeSingle_append [] within
  rw [List.append_nil] at whole
  rw [whole, decodeSingle, Except.map, List.append_nil]

theorem decodeSingle_first {b : UInt8} (rest : List UInt8)
    (within : ∀ a ∈ front, a.toNat ≤ limit) (beyond : limit < b.toNat) :
    decodeSingle charset limit position (front ++ b :: rest) =
      .error (.invalidByte charset b (position + front.length)) := by
  rw [decodeSingle_append _ within, decodeSingle, if_neg (Nat.not_le.2 beyond)]
  rfl

theorem encodeSingle_all (within : ∀ c ∈ chars, c.toNat ≤ limit) :
    encodeSingle charset limit chars = .ok (chars.map fun c => UInt8.ofNat c.toNat) := by
  have whole : encodeSingle charset limit (chars ++ []) = _ := encodeSingle_append [] within
  rw [List.append_nil] at whole
  rw [whole, encodeSingle, Except.map, List.append_nil]

theorem encodeSingle_first {c : Char} (rest : List Char)
    (within : ∀ d ∈ start, d.toNat ≤ limit) (beyond : limit < c.toNat) :
    encodeSingle charset limit (start ++ c :: rest) = .error (.unmappable charset c) := by
  rw [encodeSingle_append _ within, encodeSingle, if_neg (Nat.not_le.2 beyond)]
  rfl

theorem encodeSingle_of_decodeSingle
    (decoded : decodeSingle charset limit position bytes = .ok chars) :
    encodeSingle charset limit chars = .ok bytes := by
  obtain within | ⟨front, b, rest, rfl, within, beyond⟩ :=
    all_within_or_first UInt8.toNat limit bytes
  · rw [decodeSingle_all within] at decoded
    cases decoded
    have number (b : UInt8) : (Char.ofNat b.toNat).toNat = b.toNat := by
      have byte := b.toNat_lt
      rw [Char.ofNat, dif_pos (.inl (by omega))]
      rfl
    rw [encodeSingle_all]
    · simp only [List.map_map, Function.comp_def, number, UInt8.ofNat_toNat, List.map_id']
    · intro c inside
      obtain ⟨b, present, rfl⟩ := List.mem_map.1 inside
      rw [number]
      exact within b present
  · rw [decodeSingle_first rest within beyond] at decoded
    cases decoded

/-- Decoding in a one-byte charset fails with the first byte past its last code point. -/
theorem decodeSingle_eq_error_iff : decodeSingle charset limit position bytes = .error e ↔
    ∃ front b rest, bytes = front ++ b :: rest ∧ (∀ a ∈ front, a.toNat ≤ limit) ∧
      limit < b.toNat ∧ e = .invalidByte charset b (position + front.length) := by
  constructor
  · intro failed
    obtain within | ⟨front, b, rest, rfl, within, beyond⟩ :=
      all_within_or_first UInt8.toNat limit bytes
    · rw [decodeSingle_all within] at failed
      cases failed
    · rw [decodeSingle_first rest within beyond] at failed
      cases failed
      exact ⟨front, b, rest, rfl, within, beyond, rfl⟩
  · rintro ⟨front, b, rest, rfl, within, beyond, rfl⟩
    exact decodeSingle_first rest within beyond

/-- A text has bytes in a one-byte charset just if no character is past its last code point. -/
theorem encodeSingle_eq_ok_iff : encodeSingle charset limit chars = .ok bytes ↔
    (∀ c ∈ chars, c.toNat ≤ limit) ∧ bytes = chars.map fun c => UInt8.ofNat c.toNat := by
  constructor
  · intro encoded
    obtain within | ⟨start, c, rest, rfl, within, beyond⟩ :=
      all_within_or_first Char.toNat limit chars
    · rw [encodeSingle_all within] at encoded
      exact ⟨within, (Except.ok.inj encoded).symm⟩
    · rw [encodeSingle_first rest within beyond] at encoded
      cases encoded
  · rintro ⟨within, rfl⟩
    exact encodeSingle_all within

/-- Encoding in a one-byte charset fails with the first character past its last code point. -/
theorem encodeSingle_eq_error_iff : encodeSingle charset limit chars = .error e ↔
    ∃ front c rest, chars = front ++ c :: rest ∧ (∀ a ∈ front, a.toNat ≤ limit) ∧
      limit < c.toNat ∧ e = .unmappable charset c := by
  constructor
  · intro failed
    obtain within | ⟨front, c, rest, rfl, within, beyond⟩ :=
      all_within_or_first Char.toNat limit chars
    · rw [encodeSingle_all within] at failed
      cases failed
    · rw [encodeSingle_first rest within beyond] at failed
      cases failed
      exact ⟨front, c, rest, rfl, within, beyond, rfl⟩
  · rintro ⟨front, c, rest, rfl, within, beyond, rfl⟩
    exact encodeSingle_first rest within beyond

end single

/-- The characters that a charset can write. -/
def Has : Charset → Char → Prop
  | utf8, _ => True
  | latin1, c => c.toNat ≤ 0xFF
  | ascii, c => c.toNat ≤ 0x7F

def code : Charset → Char → List UInt8
  | utf8, c => String.utf8EncodeChar c
  | latin1, c | ascii, c => [UInt8.ofNat c.toNat]

/-- Bytes that are no text of a charset, and how that is reported. -/
def Defect : Charset → List UInt8 → CodingError → Prop
  | utf8, bytes, e => (∀ text, Text.textBytes text ≠ bytes) ∧
    ∃ n, IsGreatest (Text.frontLengths bytes) n ∧ e = .invalidUtf8 n
  | latin1, _, _ => False
  | ascii, bytes, e => ∃ front b rest, bytes = front ++ b :: rest ∧
    (∀ a ∈ front, a.toNat ≤ 0x7F) ∧ 0x7F < b.toNat ∧ e = .invalidByte ascii b front.length

/-- A charset that reads what it writes and nothing else, and reports the first place at which
there is nothing to write or to read. -/
structure Faithful (charset : Charset) : Prop where
  inverse (bytes : List UInt8) (text : String) :
    charset.decode bytes = .ok text ↔ charset.encode text = .ok bytes
  undecodable (bytes : List UInt8) (e : CodingError) :
    charset.decode bytes = .error e ↔ charset.Defect bytes e
  encoded (text : String) (bytes : List UInt8) :
    charset.encode text = .ok bytes ↔
      (∀ c ∈ text.toList, charset.Has c) ∧ bytes = text.toList.flatMap charset.code
  unmappable (text : String) (e : CodingError) :
    charset.encode text = .error e ↔ ∃ front c rest, text.toList = front ++ c :: rest ∧
      (∀ a ∈ front, charset.Has a) ∧ ¬ charset.Has c ∧ e = .unmappable charset c

theorem Faithful.of_utf8 : utf8.Faithful where
  inverse bytes text := by
    have decoded : utf8.decode bytes = (Text.ofBytes bytes).mapError .invalidUtf8 := rfl
    have encoded : utf8.encode text = .ok (Text.textBytes text) := rfl
    rw [decoded, encoded, Except.ok.injEq, ← Text.ofBytes_eq_ok_iff]
    cases Text.ofBytes bytes <;> simp [Except.mapError]
  undecodable bytes e := by
    have decoded : utf8.decode bytes = (Text.ofBytes bytes).mapError .invalidUtf8 := rfl
    rw [decoded, Defect]
    constructor
    · intro failed
      cases read : Text.ofBytes bytes with
      | ok text => rw [read] at failed; cases failed
      | error n =>
        rw [read] at failed
        cases failed
        obtain ⟨none, greatest⟩ := Text.ofBytes_eq_error_iff.1 read
        exact ⟨none, n, greatest, rfl⟩
    · rintro ⟨none, n, greatest, rfl⟩
      rw [Text.ofBytes_eq_error_iff.2 ⟨none, greatest⟩]
      rfl
  encoded text bytes := by
    have encoded : utf8.encode text = .ok (Text.textBytes text) := rfl
    rw [encoded, Except.ok.injEq]
    exact ⟨fun same => ⟨fun _ _ => trivial, same.symm⟩, fun coded => coded.2.symm⟩
  unmappable text e := by
    constructor
    · intro failed
      cases failed
    · rintro ⟨front, c, rest, -, -, beyond, -⟩
      exact absurd trivial beyond

section limited

variable (limited : charset.limit? = some limit)

include limited

theorem has_iff {c : Char} : charset.Has c ↔ c.toNat ≤ limit := by
  cases charset <;> cases limited <;> rfl

theorem flatMap_code (chars : List Char) :
    chars.flatMap charset.code = chars.map fun c => UInt8.ofNat c.toNat := by
  have code_eq : charset.code = fun c => [UInt8.ofNat c.toNat] := by
    cases charset <;> cases limited <;> rfl
  rw [code_eq, List.map_eq_flatMap]

theorem encode_eq (text : String) :
    charset.encode text = encodeSingle charset limit text.toList := by
  unfold encode
  rw [limited]

theorem decode_eq (bytes : List UInt8) :
    charset.decode bytes = (decodeSingle charset limit 0 bytes).map String.ofList := by
  unfold decode
  rw [limited]

theorem defect_iff : charset.Defect bytes e ↔ ∃ front b rest, bytes = front ++ b :: rest ∧
    (∀ a ∈ front, a.toNat ≤ limit) ∧ limit < b.toNat ∧
      e = .invalidByte charset b front.length := by
  cases charset with
  | utf8 => cases limited
  | ascii => cases limited; rfl
  | latin1 =>
    cases limited
    refine ⟨False.elim, ?_⟩
    rintro ⟨front, b, rest, -, -, beyond, -⟩
    have byte := b.toNat_lt
    omega

theorem Faithful.of_limit : charset.Faithful where
  inverse bytes text := by
    rw [encode_eq limited, decode_eq limited]
    constructor
    · intro decoded
      cases read : decodeSingle charset limit 0 bytes with
      | error e => rw [read] at decoded; cases decoded
      | ok chars =>
        rw [read] at decoded
        cases decoded
        rw [String.toList_ofList]
        exact encodeSingle_of_decodeSingle read
    · intro encoded
      rw [decodeSingle_of_encodeSingle (limit_lt limited) encoded, Except.map,
        String.ofList_toList]
  undecodable bytes e := by
    have mapped : charset.decode bytes = .error e ↔
        decodeSingle charset limit 0 bytes = .error e := by
      rw [decode_eq limited]
      cases decodeSingle charset limit 0 bytes <;> simp [Except.map]
    rw [mapped, defect_iff limited, decodeSingle_eq_error_iff]
    simp only [Nat.zero_add]
  encoded text bytes := by
    simp only [encode_eq limited, has_iff limited, flatMap_code limited]
    exact encodeSingle_eq_ok_iff
  unmappable text e := by
    simp only [encode_eq limited, has_iff limited, Nat.not_le]
    exact encodeSingle_eq_error_iff

end limited

/-- Every charset reads what it writes and nothing else. -/
theorem faithful (charset : Charset) : charset.Faithful := by
  cases charset with
  | utf8 => exact .of_utf8
  | latin1 => exact .of_limit rfl
  | ascii => exact .of_limit rfl

/-- Forms that are too long, halves of surrogate pairs, numbers past the last code point and
characters that are cut off are no text, and what stands in front of them is. -/
example : utf8.decode [0x41, 0xC0, 0x80] = .error (.invalidUtf8 1) ∧
    utf8.decode [0x41, 0xED, 0xA0, 0x80] = .error (.invalidUtf8 1) ∧
    utf8.decode [0x41, 0xF4, 0x90, 0x80, 0x80] = .error (.invalidUtf8 1) ∧
    utf8.decode [0x41, 0x42, 0xE2, 0x82] = .error (.invalidUtf8 2) := ⟨rfl, rfl, rfl, rfl⟩

end GroupedTables.Charset
