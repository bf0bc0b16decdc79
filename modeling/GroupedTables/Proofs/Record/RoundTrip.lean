import GroupedTables.Proofs.Decimal.Packed
import GroupedTables.Proofs.Decimal.Rounding
import GroupedTables.Proofs.Record.Charset
import GroupedTables.Proofs.Record.Settings

/-!
# Records read back

The fields of a built record are found where they were put, so reading one is a matter of its
bytes alone: they are what the last setter made of its value, and each getter undoes what the
setter of its kind did. What is lost is what a field has no room for, the high bytes of an
integer and the last places of a decimal.
-/

namespace GroupedTables.Record

variable {i : Nat} {p : Option (List UInt8)} {f : Field} {bytes value : List UInt8}
  {type : FieldType} {b : Builder}

theorem exists_cut {payloads : List (Option (List UInt8))} (there : payloads[i]? = some p) :
    ∃ front back, payloads = front ++ p :: back ∧ front.length = i := by
  obtain ⟨inside, rfl⟩ := List.getElem?_eq_some_iff.1 there
  refine ⟨payloads.take i, payloads.drop (i + 1), ?_, List.length_take_of_le (Nat.le_of_lt inside)⟩
  rw [List.getElem_cons_drop, List.take_append_drop]

/-- A field of a built record whose end has room in the footer is null, or it spans the payload it
was given. -/
theorem Builder.exists_read_of_endOf (complete : b.Complete) (fits : b.endOf i < UInt32.size)
    (found : b.layout.fields[i]? = some type) (there : b.payloads[i]? = some p) :
    ∃ f, b.layout.read b.build i = .ok f ∧ f.type = type ∧ f.index = i ∧
      (p.getD [] = [] → f.Null) ∧
      (p.getD [] ≠ [] → f.Spans (p.getD []) ∧ (p.getD []).length < UInt32.size) := by
  obtain ⟨front, back, cut, rfl⟩ := exists_cut there
  refine ⟨_, read_build complete fits cut found, rfl, rfl, fun empty => ?_, fun filled => ?_⟩
  · refine Field.null_of_location ?_
    rw [empty]
    rfl
  · have within := b.endOf_le front.length
    rw [endOf_eq cut] at fits within
    have offset : (dataOf front).length < UInt32.size := by omega
    have width : (p.getD []).length < UInt32.size := by omega
    have some : (p.getD []).length ≠ 0 := fun none => filled (List.eq_nil_of_length_eq_zero none)
    refine ⟨⟨locationWidth_packLocation offset width, ?_, ?_⟩, width⟩
    · simp only [locationOffset_packLocation offset width some, length_build complete]
      omega
    · simp only [locationOffset_packLocation offset width some]
      rw [build_eq, cut]
      exact span_dataOf _

/-- A field of a built record is null, or it spans the payload it was given. -/
theorem Builder.exists_read_build (complete : b.Complete) (small : b.data.length < UInt32.size)
    (found : b.layout.fields[i]? = some type) (there : b.payloads[i]? = some p) :
    ∃ f, b.layout.read b.build i = .ok f ∧ f.type = type ∧ f.index = i ∧
      (p.getD [] = [] → f.Null) ∧
      (p.getD [] ≠ [] → f.Spans (p.getD []) ∧ (p.getD []).length < UInt32.size) :=
  exists_read_of_endOf complete (Nat.lt_of_le_of_lt (b.endOf_le i) small) found there

/-- The field is read as the integer nearest to zero, and as the natural number, that have the
low bytes of an integer. -/
def Field.ReadsInteger (f : Field) (n : Int) : Prop :=
  ∃ width, f.type.type.fixedWidth? = some width ∧
    f.signed = .ok (n.bmod (2 ^ (8 * width))) ∧
    f.unsigned = .ok (n % 2 ^ (8 * width)).toNat ∧
    (-2 ^ (8 * width - 1) ≤ n → n < 2 ^ (8 * width - 1) → f.signed = .ok n)

/-- The field is read as the value it was set to, as far as it has room for it. -/
def Setting.ReadsBack (f : Field) : Setting → Prop
  | .null => f.Null
  | .int n => f.ReadsInteger n
  | .uint n => f.ReadsInteger n
  | .float x => f.type.type = .float → f.single = .ok x
  | .double x => f.type.type = .double → f.double = .ok x
  | .decimal d =>
    f.decimal = .ok ⟨Decimal.halfUp d.value f.type.descriptor.scale, f.type.descriptor.scale⟩
  | .string text => f.string = .ok text
  | .bytes value => f.payload = .ok value
  | .date y m d => f.ReadsInteger (encodeDate y m d)
  | .dateTime y m d hour minute second => f.ReadsInteger (encodeDateTime y m d hour minute second)
  | .time hour minute second => f.ReadsInteger (encodeTime hour minute second)
  | .timestamp seconds => f.ReadsInteger seconds
  | .year value => f.ReadsInteger (encodeYear value)

/-- The bytes of an integer are read as the one nearest to zero that has them. -/
theorem Field.Spans.signed_integer {n : Int} {width : Nat} (h : f.Spans (littleEndian n width))
    (least : 1 ≤ width) (most : width ≤ 8) : f.signed = .ok (n.bmod (2 ^ (8 * width))) := by
  have signed := h.signed (littleEndian_ne_nil n least) (by rwa [length_littleEndian])
  rwa [length_littleEndian, twosComplement_littleEndian] at signed

theorem Field.Spans.readsInteger {n : Int} {width : Nat} (h : f.Spans (littleEndian n width))
    (fixed : f.type.type.fixedWidth? = some width) : f.ReadsInteger n := by
  obtain ⟨least, most⟩ := DataType.fixedWidth?_bounds fixed
  have signed := h.signed_integer least most
  have unsigned := h.unsigned (littleEndian_ne_nil n least) (by rwa [length_littleEndian])
  have low := ofLittleEndian_littleEndian n width
  rw [bound_eq] at low
  refine ⟨width, fixed, signed, ?_, fun above below => ?_⟩
  · rw [unsigned]
    congr 1
    omega
  · rw [signed, bmod_eq_of_fits least ⟨above, Int.le_sub_one_of_lt below⟩]

/-- The bits of a four-byte float survive as an integer of four bytes. -/
theorem ofInt_bmod_bits32 (bits : UInt32) :
    UInt32.ofInt ((bits.toNat : Int).bmod (2 ^ 32)) = bits := by
  have low : (bits.toNat : Int).bmod (2 ^ 32) % (2 ^ 32 : Nat) = bits.toNat := by
    rw [Int.bmod_emod]
    exact Int.emod_eq_of_lt (by omega) (by exact_mod_cast bits.toNat_lt)
  change UInt32.ofNat ((bits.toNat : Int).bmod (2 ^ 32) % (2 ^ 32 : Nat)).toNat = bits
  rw [low, Int.toNat_natCast, UInt32.ofNat_toNat]

/-- The bits of an eight-byte float survive as an integer of eight bytes. -/
theorem ofInt_bmod_bits64 (bits : UInt64) :
    UInt64.ofInt ((bits.toNat : Int).bmod (2 ^ 64)) = bits := by
  have low : (bits.toNat : Int).bmod (2 ^ 64) % (2 ^ 64 : Nat) = bits.toNat := by
    rw [Int.bmod_emod]
    exact Int.emod_eq_of_lt (by omega) (by exact_mod_cast bits.toNat_lt)
  change UInt64.ofNat ((bits.toNat : Int).bmod (2 ^ 64) % (2 ^ 64 : Nat)).toNat = bits
  rw [low, Int.toNat_natCast, UInt64.ofNat_toNat]

theorem Field.Spans.single {x : Floating.Single}
    (h : f.Spans (littleEndian (twosComplement 4 x.bits.toNat) 4)) : f.single = .ok x := by
  have signed := h.signed_integer (by decide) (by decide)
  rw [Field.single, signed]
  have bits : (twosComplement 4 x.bits.toNat).bmod (2 ^ (8 * 4)) =
      (x.bits.toNat : Int).bmod (2 ^ 32) := Int.bmod_bmod
  rw [bits]
  exact congrArg (fun bits => Except.ok (Floating.Single.mk bits)) (ofInt_bmod_bits32 x.bits)

theorem Field.Spans.double {x : Floating.Double}
    (h : f.Spans (littleEndian (x.bits.toNat : Int) 8)) : f.double = .ok x := by
  have signed := h.signed_integer (by decide) (by decide)
  rw [Field.double, signed]
  exact congrArg (fun bits => Except.ok (Floating.Double.mk bits)) (ofInt_bmod_bits64 x.bits)

/-- The length of a value that is not refused has room in the bytes in front of it. -/
theorem length_lt_of_fits (fits : type.lengthWidth ≠ 0 → value.length ≤ type.descriptor.maxPayload)
    (small : value.length < UInt32.size) (counted : type.lengthWidth ≠ 0) :
    value.length < 256 ^ type.lengthWidth := by
  have most := fits counted
  unfold FieldType.lengthWidth TypeDescriptor.lengthWidth at counted ⊢
  unfold UInt32.size at small
  split_ifs at counted ⊢ <;> omega

/-- What the last setter stored is read back as its value. -/
theorem Setting.Stores.readsBack {s : Setting} (stores : s.Stores f.type (some bytes))
    (h : f.Spans bytes) (filled : bytes ≠ []) (small : bytes.length < UInt32.size) :
    s.ReadsBack f := by
  have wide : f.type.lengthWidth ≤ 8 := Nat.le_trans (Builder.lengthWidth_le _) (by decide)
  have payload (value : List UInt8)
      (behind : bytes = littleEndian value.length f.type.lengthWidth ++ value)
      (fits : f.type.lengthWidth ≠ 0 → value.length ≤ f.type.descriptor.maxPayload) :
      f.payload = .ok value := by
    refine (h.payload_eq_ok_iff filled wide).2 ⟨behind, fun counted => ?_⟩
    refine length_lt_of_fits fits ?_ counted
    rw [behind, List.length_append] at small
    omega
  cases stores with
  | decimal encoded =>
    have packed := h.packed filled
    simp only [ReadsBack, Field.decimal, packed, bind, Except.bind,
      Decimal.decode_of_encode encoded, Decimal.roundedUnits_eq]
    rfl
  | bytes fits => exact payload _ rfl fits
  | string encoded fits =>
    have read := payload _ rfl fits
    simp only [ReadsBack, Field.string, read, bind, Except.bind, Charset.decode_of_encode encoded]
    rfl
  | @integer _ n width value fixed =>
    have plain := h.readsInteger fixed
    cases s with
    | float x =>
      intro single
      rw [single] at fixed
      obtain rfl : 4 = width := Option.some.inj fixed
      rw [← Option.some.inj value] at h
      exact h.single
    | double x =>
      intro double
      rw [double] at fixed
      obtain rfl : 8 = width := Option.some.inj fixed
      rw [← Option.some.inj value] at h
      exact h.double
    | int | uint | date | dateTime | time | timestamp | year =>
      rw [← Option.some.inj value] at plain
      exact plain
    | null | decimal | string | bytes => cases value

/-- A setter that succeeds leaves every field but its own as it was. -/
theorem Setting.frame_of_set_eq_ok {b' : Builder} {s : Setting} (ok : s.set b i = .ok b') :
    b'.layout = b.layout ∧ ∀ k, k ≠ i → b'.payloads[k]? = b.payloads[k]? := by
  obtain ⟨_, _, _, _, rfl⟩ := Builder.stores_of_set_eq_ok ok
  exact ⟨rfl, fun k other => List.getElem?_set_ne other.symm⟩

/-- Whatever setters are called on a record, in any order, any number of times, whether they
succeed or fail: a call that fails changes nothing, and a call that succeeds only its own field.
If offsets fit in the footer, every field of the built record is found. It is null if it was
never set, or set to null last; else it spans what was stored last, if that has any bytes, and is
read as the value it was set to. -/
theorem read_ofCalls (l : Layout) (calls : List (Nat × Setting))
    (small : (Builder.ofCalls l calls).data.length < UInt32.size) :
    (∀ (b : Builder) (i : Nat) (s : Setting),
      (∀ e, s.set b i = .error e → b.after (i, s) = b) ∧
      ∀ b', s.set b i = .ok b' → b.after (i, s) = b' ∧ b'.layout = b.layout ∧
        ∀ k, k ≠ i → b'.payloads[k]? = b.payloads[k]?) ∧
    ∀ i type, l.fields[i]? = some type →
      ∃ f p, l.read (Builder.ofCalls l calls).build i = .ok f ∧ f.type = type ∧ f.index = i ∧
        (Builder.ofCalls l calls).payloads[i]? = some p ∧
        match Builder.lastSetting i (.ofLayout l) calls with
        | none | some .null => p = none ∧ f.Null
        | some s => ∃ bytes, p = some bytes ∧ s.Stores type bytes ∧
          (bytes ≠ [] → f.Spans bytes ∧ s.ReadsBack f) := by
  constructor
  · intro b i s
    refine ⟨fun e failed => ?_, fun b' ok => ⟨?_, Setting.frame_of_set_eq_ok ok⟩⟩
    · rw [Builder.after, failed]
    · rw [Builder.after, ok]
  intro i type found
  have complete := (Builder.complete_ofLayout l).foldl_after calls
  obtain ⟨p, there, stored⟩ :=
    Builder.payload_foldl_after (Builder.complete_ofLayout l) found calls
  have found' : (Builder.ofCalls l calls).layout.fields[i]? = some type := by
    rwa [Builder.ofCalls, Builder.layout_foldl_after]
  obtain ⟨f, read, rfl, index, null, spans⟩ :=
    Builder.exists_read_build complete small found' there
  rw [Builder.layout_foldl_after] at read
  refine ⟨f, p, read, rfl, index, there, ?_⟩
  cases last : Builder.lastSetting i (.ofLayout l) calls with
  | none =>
    rw [last] at stored
    have inside := (List.getElem?_eq_some_iff.1 found).1
    have empty : (Builder.ofLayout l).payloads[i]? = some none :=
      List.getElem?_replicate_of_lt inside
    obtain rfl : p = none := Option.some.inj (stored.symm.trans empty)
    exact ⟨rfl, null rfl⟩
  | some s =>
    rw [last] at stored
    cases s with
    | null =>
      cases stored with
      | null => exact ⟨rfl, null rfl⟩
      | integer value => cases value
    | int | uint | float | double | decimal | string | bytes | date | dateTime | time | timestamp
    | year =>
      obtain ⟨bytes, rfl⟩ : ∃ bytes, p = some bytes := by cases stored <;> exact ⟨_, rfl⟩
      refine ⟨bytes, rfl, stored, fun filled => ?_⟩
      obtain ⟨here, short⟩ := spans filled
      exact ⟨here, stored.readsBack here filled short⟩

def priced : Layout :=
  ⟨[⟨.ofType .int, none⟩, ⟨.decimal 5 2, none⟩,
    ⟨{ type := .varchar, length := some 4, charset := "latin1" }, some .latin1⟩,
    ⟨.ofType .date, none⟩]⟩

/-- The price is no text, the second note is too long, and there is no fifth field. -/
def pricing : List (Nat × Setting) :=
  [(2, .string "new"), (0, .int (-300)), (1, .string "free"), (2, .string "sold out"),
    (1, .decimal ⟨12345, 3⟩), (3, .date 2024 2 29), (4, .null), (3, .null)]

/-- What the calls that succeeded last stored is read from the fields. -/
theorem read_ofCalls_priced : (Builder.ofCalls priced pricing).data.length < UInt32.size ∧
    (∃ f, priced.read (Builder.ofCalls priced pricing).build 0 = .ok f ∧
      f.signed = .ok (-300)) ∧
    (∃ f, priced.read (Builder.ofCalls priced pricing).build 2 = .ok f ∧
      f.string = .ok "new") ∧
    ∃ f, priced.read (Builder.ofCalls priced pricing).build 3 = .ok f ∧ f.Null := by
  have small : (Builder.ofCalls priced pricing).data.length < UInt32.size := by decide +kernel
  obtain ⟨-, reads⟩ := read_ofCalls priced pricing small
  refine ⟨small, ?_, ?_, ?_⟩
  · have last : Builder.lastSetting 0 (.ofLayout priced) pricing = some (.int (-300)) := by
      decide +kernel
    obtain ⟨f, p, read, type, -, there, stored⟩ := reads 0 _ rfl
    rw [last] at stored
    obtain ⟨bytes, rfl, -, stored⟩ := stored
    obtain ⟨-, width, fixed, -, -, exact⟩ := stored (by
      rintro rfl
      revert there
      decide +kernel)
    rw [type] at fixed
    obtain rfl : 4 = width := Option.some.inj fixed
    exact ⟨f, read, exact (by decide) (by decide)⟩
  · have last : Builder.lastSetting 2 (.ofLayout priced) pricing = some (.string "new") := by
      decide +kernel
    obtain ⟨f, p, read, -, -, there, stored⟩ := reads 2 _ rfl
    rw [last] at stored
    obtain ⟨bytes, rfl, -, stored⟩ := stored
    exact ⟨f, read, (stored (by rintro rfl; revert there; decide +kernel)).2⟩
  · have last : Builder.lastSetting 3 (.ofLayout priced) pricing = some .null := by
      decide +kernel
    obtain ⟨f, p, read, -, -, there, stored⟩ := reads 3 _ rfl
    rw [last] at stored
    exact ⟨f, read, stored.2⟩

end GroupedTables.Record
