import GroupedTables.Proofs.Action
import GroupedTables.Proofs.Record.Integer
import GroupedTables.Record.Builder
import GroupedTables.Record.Field

/-!
# Where the fields of a record lie

A record is its payloads and the end offset of each of them. Cut at any field, both halves of
the record are cut as well: the data at what the fields before it take, the footer at four
bytes for each. So the footer of a built record tells where each payload lies, as long as
offsets fit in the four bytes they are given.
-/

namespace GroupedTables.Record

variable {offset width : Nat}

theorem packLocation_eq (offset_lt : offset < UInt32.size) (width_lt : width < UInt32.size) :
    packLocation offset width = if width = 0 then 0 else width * UInt32.size + offset := by
  have fits : width * UInt32.size < Word.bound := by
    unfold UInt32.size Word.bound at *
    omega
  have apart := Nat.two_pow_add_eq_or_of_lt (i := 32) offset_lt width
  rw [packLocation, Nat.mod_eq_of_lt fits]
  split
  · rfl
  · rw [Nat.mul_comm]
    exact apart.symm

/-- A location is that of null just if the field has no bytes. -/
theorem packLocation_eq_zero_iff (offset_lt : offset < UInt32.size)
    (width_lt : width < UInt32.size) : packLocation offset width = 0 ↔ width = 0 := by
  rw [packLocation_eq offset_lt width_lt]
  unfold UInt32.size
  split <;> omega

theorem locationWidth_packLocation (offset_lt : offset < UInt32.size)
    (width_lt : width < UInt32.size) : locationWidth (packLocation offset width) = width := by
  rw [packLocation_eq offset_lt width_lt, locationWidth]
  unfold UInt32.size at *
  split <;> omega

theorem locationOffset_packLocation (offset_lt : offset < UInt32.size)
    (width_lt : width < UInt32.size) (filled : width ≠ 0) :
    locationOffset (packLocation offset width) = offset := by
  rw [packLocation_eq offset_lt width_lt, locationOffset, if_neg filled]
  unfold UInt32.size at *
  omega

namespace Layout

variable {l : Layout} {bytes : List UInt8} {i location : Nat} {type : FieldType} {f : Field}

theorem field_eq_ok : l.field i = .ok type ↔ l.fields[i]? = some type := by
  unfold Layout.field
  cases l.fields[i]? <;> simp

/-- What is done with a field is done if there is one. -/
theorem bind_field_eq_ok {α : Type} {next : FieldType → Except Fault α} {a : α} :
    (liftM (l.field i) >>= next) = .ok a ↔
      ∃ type, l.fields[i]? = some type ∧ next type = .ok a := by
  simp only [Check.bind_eq_ok, Check.lift_eq_ok, field_eq_ok]

def dataSize (l : Layout) (bytes : List UInt8) : Nat := bytes.length - l.footerSize

/-- A location is found just if the footer is there and the offsets in it are in order. -/
theorem location_eq_ok : l.location bytes i = .ok location ↔
    i < l.size ∧ l.footerSize ≤ bytes.length ∧
      startOffset bytes (l.dataSize bytes) i ≤ endOffset bytes (l.dataSize bytes) i ∧
      endOffset bytes (l.dataSize bytes) i ≤ l.dataSize bytes ∧
      packLocation (startOffset bytes (l.dataSize bytes) i)
        (endOffset bytes (l.dataSize bytes) i - startOffset bytes (l.dataSize bytes) i) =
          location := by
  have there : (∃ type, l.field i = .ok type) ↔ i < l.size := by
    simp only [field_eq_ok, List.getElem?_eq_some_iff, size]
    exact ⟨fun ⟨_, inside, _⟩ => inside, fun inside => ⟨_, inside, rfl⟩⟩
  unfold Layout.location
  simp only [Check.bind_eq_ok, Check.guard_eq_ok, exists_and_right, there, not_or, Nat.not_lt,
    and_assoc, pure, Except.pure, Except.ok.injEq, dataSize]

theorem read_eq_ok : l.read bytes i = .ok f ↔ ∃ type location, l.fields[i]? = some type ∧
    l.location bytes i = .ok location ∧ f = { bytes, index := i, type, location } := by
  unfold Layout.read
  simp only [Check.bind_eq_ok, Check.lift_eq_ok, field_eq_ok]
  constructor
  · rintro ⟨location, located, type, found, ⟨⟩⟩
    exact ⟨type, location, found, located, rfl⟩
  · rintro ⟨type, location, found, located, rfl⟩
    exact ⟨location, located, type, found, rfl⟩

end Layout

/-- The bytes of payloads, one after the other. -/
def dataOf (payloads : List (Option (List UInt8))) : List UInt8 := payloads.flatMap (·.getD [])

def footerOf (start : Nat) (payloads : List (Option (List UInt8))) : List UInt8 :=
  (Builder.endOffsets start payloads).flatMap fun (stop : Nat) => littleEndian stop footerEntrySize

theorem Builder.build_eq (b : Builder) : b.build = dataOf b.payloads ++ footerOf 0 b.payloads := rfl

variable {front back : List (Option (List UInt8))} {p : Option (List UInt8)} {start : Nat}

@[simp] theorem dataOf_nil : dataOf [] = [] := rfl

@[simp] theorem dataOf_append : dataOf (front ++ back) = dataOf front ++ dataOf back :=
  List.flatMap_append

@[simp] theorem dataOf_cons : dataOf (p :: back) = p.getD [] ++ dataOf back := rfl

@[simp] theorem footerOf_nil : footerOf start [] = [] := rfl

theorem footerOf_cons : footerOf start (p :: back) =
    littleEndian (start + (p.getD []).length : Nat) footerEntrySize ++
      footerOf (start + (p.getD []).length) back := rfl

/-- The end offsets of later payloads go on where those of earlier ones end. -/
theorem footerOf_append : footerOf start (front ++ back) =
    footerOf start front ++ footerOf (start + (dataOf front).length) back := by
  induction front generalizing start with
  | nil => rfl
  | cons p front ih =>
    rw [List.cons_append, footerOf_cons, footerOf_cons, ih, dataOf_cons, List.length_append,
      List.append_assoc, Nat.add_assoc]

@[simp] theorem length_footerOf (start : Nat) (payloads : List (Option (List UInt8))) :
    (footerOf start payloads).length = payloads.length * footerEntrySize := by
  induction payloads generalizing start with
  | nil => simp
  | cons p rest ih =>
    rw [footerOf_cons, List.length_append, length_littleEndian, ih, List.length_cons,
      Nat.succ_mul, Nat.add_comm]

/-- The bytes of one payload, between those of the others. -/
theorem span_dataOf (rest : List UInt8) :
    span (dataOf (front ++ p :: back) ++ rest) (dataOf front).length (p.getD []).length =
      p.getD [] := by
  have cut : dataOf (front ++ p :: back) ++ rest =
      dataOf front ++ p.getD [] ++ (dataOf back ++ rest) := by
    simp only [dataOf_append, dataOf_cons, List.append_assoc]
  rw [cut, span_append]

namespace Builder

variable {b : Builder} {type : FieldType}

def data (b : Builder) : List UInt8 := dataOf b.payloads

/-- There is a payload, or null, for each field. -/
def Complete (b : Builder) : Prop := b.payloads.length = b.layout.size

theorem length_build (complete : b.Complete) :
    b.build.length = b.data.length + b.layout.footerSize := by
  rw [build_eq, List.length_append, length_footerOf, complete]
  rfl

def endOf (b : Builder) (i : Nat) : Nat := (dataOf (b.payloads.take (i + 1))).length

theorem endOf_eq (cut : b.payloads = front ++ p :: back) :
    b.endOf front.length = (dataOf front).length + (p.getD []).length := by
  have upto : b.payloads.take (front.length + 1) = front ++ [p] := by
    rw [cut, List.take_length_add_append, List.take_succ_cons, List.take_zero]
  rw [endOf, upto, dataOf_append, List.length_append, dataOf_cons, dataOf_nil, List.append_nil]

theorem endOf_le (b : Builder) (i : Nat) : b.endOf i ≤ b.data.length := by
  have halves : (dataOf (b.payloads.take (i + 1) ++ b.payloads.drop (i + 1))).length =
      b.endOf i + (dataOf (b.payloads.drop (i + 1))).length := by
    rw [dataOf_append, List.length_append, endOf]
  rw [List.take_append_drop] at halves
  exact Nat.le_trans (Nat.le_add_right ..) (Nat.le_of_eq halves.symm)

/-- An end offset that has room in the footer is found there. -/
theorem endOffset_build (fits : b.endOf front.length < UInt32.size)
    (cut : b.payloads = front ++ p :: back) :
    Layout.endOffset b.build b.data.length front.length = b.endOf front.length := by
  have record : b.build = b.data ++ footerOf 0 front ++
      littleEndian (b.endOf front.length : Nat) footerEntrySize ++
        footerOf (b.endOf front.length) back := by
    rw [build_eq, data, endOf_eq cut, cut, footerOf_append, footerOf_cons, Nat.zero_add]
    simp only [List.append_assoc]
  have place : b.data.length + front.length * footerEntrySize =
      (b.data ++ footerOf 0 front).length := by
    rw [List.length_append, length_footerOf]
  have entry := span_append (b.data ++ footerOf 0 front)
    (littleEndian (b.endOf front.length : Nat) footerEntrySize)
    (footerOf (b.endOf front.length) back)
  rw [length_littleEndian] at entry
  rw [Layout.endOffset, place, record, entry]
  exact ofLittleEndian_littleEndian_of_lt fits

theorem startOffset_build (fits : (dataOf front).length < UInt32.size)
    (cut : b.payloads = front ++ back) :
    Layout.startOffset b.build b.data.length front.length = (dataOf front).length := by
  obtain rfl | ⟨front, p, rfl⟩ := List.eq_nil_or_concat front
  · rfl
  · rw [List.concat_eq_append] at cut fits ⊢
    rw [List.append_assoc] at cut
    have last : b.endOf front.length = (dataOf (front ++ [p])).length := by
      rw [endOf_eq cut, dataOf_append, List.length_append, dataOf_cons, dataOf_nil, List.append_nil]
    rw [List.length_append, List.length_singleton, Layout.startOffset,
      endOffset_build (last ▸ fits) cut, last]

/-- The footer gives each payload the place it was put at. -/
theorem location_build (complete : b.Complete) (fits : b.endOf front.length < UInt32.size)
    (cut : b.payloads = front ++ p :: back) :
    b.layout.location b.build front.length =
      .ok (packLocation (dataOf front).length (p.getD []).length) := by
  have inside : front.length < b.layout.size := by
    have length := congrArg List.length cut
    rw [complete, List.length_append, List.length_cons] at length
    omega
  have size : b.layout.dataSize b.build = b.data.length := by
    rw [Layout.dataSize, length_build complete, Nat.add_sub_cancel]
  have within := b.endOf_le front.length
  have stop := endOffset_build fits cut
  rw [endOf_eq cut] at fits within stop
  have start := startOffset_build (Nat.lt_of_le_of_lt (Nat.le_add_right _ _) fits) cut
  rw [Layout.location_eq_ok, size, start, stop, Nat.add_sub_cancel_left, length_build complete]
  exact ⟨inside, Nat.le_add_left .., Nat.le_add_right .., within, rfl⟩

/-- Reading a field of a built record finds it where its payload is. -/
theorem read_build (complete : b.Complete) (fits : b.endOf front.length < UInt32.size)
    (cut : b.payloads = front ++ p :: back)
    (there : b.layout.fields[front.length]? = some type) :
    b.layout.read b.build front.length =
      .ok { bytes := b.build, index := front.length, type
            location := packLocation (dataOf front).length (p.getD []).length } :=
  Layout.read_eq_ok.2 ⟨type, _, there, location_build complete fits cut, rfl⟩

end Builder

namespace Field

variable {f : Field} {bytes value : List UInt8}

/-- The location of the field spans exactly these bytes of its record. -/
structure Spans (f : Field) (bytes : List UInt8) : Prop where
  width : locationWidth f.location = bytes.length
  inside : locationOffset f.location + bytes.length ≤ f.bytes.length
  found : span f.bytes (locationOffset f.location) bytes.length = bytes

/-- The field has the location of null, and every getter fails because of it. -/
structure Null (f : Field) : Prop where
  location : f.location = 0
  signed : f.signed = .error (.nullValue f.index)
  unsigned : f.unsigned = .error (.nullValue f.index)
  single : f.single = .error (.nullValue f.index)
  double : f.double = .error (.nullValue f.index)
  decimal : f.decimal = .error (.nullValue f.index)
  string : f.string = .error (.nullValue f.index)
  payload : f.payload = .error (.nullValue f.index)
  packed : f.packed = .error (.nullValue f.index)
  year : f.year = .error (.nullValue f.index)

theorem null_of_location (h : f.location = 0) : f.Null := by
  have extent : f.extent = .error (.nullValue f.index) := by
    rw [Field.extent, if_pos]
    simp [isNull, h]
  have signed : f.signed = .error (.nullValue f.index) := by rw [Field.signed, extent]; rfl
  have payload : f.payload = .error (.nullValue f.index) := by rw [Field.payload, extent]; rfl
  have packed : f.packed = .error (.nullValue f.index) := by rw [Field.packed, extent]; rfl
  exact {
    location := h
    signed
    unsigned := by rw [Field.unsigned, extent]; rfl
    single := by rw [Field.single, signed]; rfl
    double := by rw [Field.double, signed]; rfl
    decimal := by rw [Field.decimal, packed]; rfl
    string := by rw [Field.string, payload]; rfl
    payload
    packed
    year := by rw [Field.year, signed]; rfl }

/-- Bytes are a value behind its length just if the number in front of them is how many they
are. -/
theorem eq_behindLength_iff {front back : List UInt8} {width : Nat}
    (head : front.length = width) :
    front ++ back = littleEndian value.length width ++ value ∧ value.length < 256 ^ width ↔
      ofLittleEndian front = back.length ∧ back = value := by
  constructor
  · rintro ⟨same, small⟩
    obtain ⟨rfl, rfl⟩ := List.append_inj same (by rw [head, length_littleEndian])
    exact ⟨ofLittleEndian_littleEndian_of_lt small, rfl⟩
  · rintro ⟨length, rfl⟩
    rw [← length, ← head, littleEndian_ofLittleEndian]
    exact ⟨rfl, ofLittleEndian_lt front⟩

namespace Spans

variable (h : f.Spans bytes) (filled : bytes ≠ [])

include h filled

theorem extent : f.extent = .ok (locationOffset f.location, bytes.length) := by
  have there : ¬ f.isNull = true := by
    intro null
    have zero : f.location = 0 := by simpa [isNull] using null
    have none := h.width
    rw [zero] at none
    exact filled (List.eq_nil_of_length_eq_zero none.symm)
  rw [Field.extent, if_neg there]
  simp only [h.width]
  rw [if_neg (Nat.not_lt.2 h.inside)]

theorem unsigned (most : bytes.length ≤ 8) : f.unsigned = .ok (ofLittleEndian bytes) := by
  have least : 1 ≤ bytes.length := List.length_pos_iff.2 filled
  have read := unsignedAt_eq least most h.inside
  rw [h.found] at read
  simp only [Field.unsigned, h.extent filled, bind, Except.bind, read]
  rfl

theorem signed (most : bytes.length ≤ 8) :
    f.signed = .ok (twosComplement bytes.length (ofLittleEndian bytes)) := by
  have least : 1 ≤ bytes.length := List.length_pos_iff.2 filled
  have read := signedAt_eq least most h.inside
  rw [h.found] at read
  simp only [Field.signed, h.extent filled, bind, Except.bind, read]
  rfl

theorem packed : f.packed = .ok bytes := by
  rw [Field.packed, h.extent filled]
  exact congrArg Except.ok h.found

/-- A payload is read just if the field holds it behind its length, in as many bytes as the
type has for that; they may be none. -/
theorem payload_eq_ok_iff (most : f.type.lengthWidth ≤ 8) : f.payload = .ok value ↔
    bytes = littleEndian value.length f.type.lengthWidth ++ value ∧
      (f.type.lengthWidth ≠ 0 → value.length < 256 ^ f.type.lengthWidth) := by
  simp only [Field.payload, Check.bind_eq_ok, h.extent filled, Except.ok.injEq, exists_eq_left']
  split
  case isTrue plain =>
    rw [plain, h.found]
    simp only [littleEndian, List.nil_append, ne_eq, not_true_eq_false, false_implies, and_true]
    exact ⟨Except.ok.inj, congrArg Except.ok⟩
  case isFalse counted =>
    simp only [Check.guard_eq_ok, Check.bind_eq_ok, Check.lift_eq_ok, pure, Except.pure,
      Except.ok.injEq, not_lt, ne_eq, not_not, counted, not_false_eq_true, true_implies]
    by_cases long : f.type.lengthWidth ≤ bytes.length
    case neg =>
      refine iff_of_false (fun read => long read.1) ?_
      rintro ⟨rfl, -⟩
      rw [List.length_append, length_littleEndian] at long
      omega
    case pos =>
      obtain ⟨more, length⟩ := Nat.exists_eq_add_of_le long
      have inside := h.inside
      have near : locationOffset f.location + f.type.lengthWidth ≤ f.bytes.length := by omega
      have far : locationOffset f.location + f.type.lengthWidth + more ≤ f.bytes.length := by omega
      have cut := h.found
      rw [length, span_add] at cut
      rw [unsignedAt_eq (Nat.pos_of_ne_zero counted) most near, ← cut,
        eq_behindLength_iff (length_span near), length_span far, cut, length,
        Nat.add_sub_cancel_left]
      simp only [Except.ok.injEq, exists_eq_left', Nat.le_add_right, true_and]

end Spans

end Field

end GroupedTables.Record
