import GroupedTables.Proofs.Record.Layout

/-!
# What setting fields does to a record

A setter either puts one payload, or null, in the place of its field, or it is refused and
nothing is changed. So of any calls of setters only the last one that succeeded on a field is
to be found in it, and what it stored depends on the type of the field alone.
-/

namespace GroupedTables.Record

/-- A call of one of the setters of a field. -/
inductive Setting where
  | null
  | int (value : Int)
  | uint (value : Nat)
  | float (value : Floating.Single)
  | double (value : Floating.Double)
  | decimal (value : Decimal)
  | string (value : String)
  | bytes (value : List UInt8)
  | date (year month day : Nat)
  | dateTime (year month day hour minute second : Nat)
  | time (hour : Int) (minute second : Nat)
  | timestamp (seconds : Int)
  | year (year : Nat)
  deriving Repr, DecidableEq

namespace Setting

def set (b : Builder) (i : Nat) : Setting → Except Fault Builder
  | null => b.setNull i
  | int value => b.setInt i value
  | uint value => b.setUInt i value
  | float value => b.setFloat i value
  | double value => b.setDouble i value
  | decimal value => b.setDecimal i value
  | string value => b.setString i value
  | bytes value => b.setBytes i value
  | date y m d => b.setDate i y m d
  | dateTime y m d hour minute second => b.setDateTime i y m d hour minute second
  | time hour minute second => b.setTime i hour minute second
  | timestamp seconds => b.setTimestamp i seconds
  | year value => b.setYear i value

def integer? : Setting → Option Int
  | int value => some value
  | uint value => some value
  | float value => some (twosComplement 4 value.bits.toNat)
  | double value => some value.bits.toNat
  | date y m d => some (encodeDate y m d)
  | dateTime y m d hour minute second => some (encodeDateTime y m d hour minute second)
  | time hour minute second => some (encodeTime hour minute second)
  | timestamp seconds => some seconds
  | year value => some (encodeYear value)
  | null | decimal _ | string _ | bytes _ => none

/-- What a setter that succeeds puts in the place of a field of some type. -/
inductive Stores (type : FieldType) : Setting → Option (List UInt8) → Prop
  | null : Stores type .null none
  | integer {s : Setting} {n : Int} {width : Nat} (value : s.integer? = some n)
    (fixed : type.type.fixedWidth? = some width) : Stores type s (some (littleEndian n width))
  | decimal {d : Decimal} {bytes : List UInt8}
    (encoded : d.encode type.descriptor.precision type.descriptor.scale = .ok bytes) :
    Stores type (.decimal d) (some bytes)
  | bytes {value : List UInt8}
    (fits : type.lengthWidth ≠ 0 → value.length ≤ type.descriptor.maxPayload) :
    Stores type (.bytes value) (some (littleEndian value.length type.lengthWidth ++ value))
  | string {text : String} {value : List UInt8} (encoded : type.textCharset.encode text = .ok value)
    (fits : type.lengthWidth ≠ 0 → value.length ≤ type.descriptor.maxPayload) :
    Stores type (.string text) (some (littleEndian value.length type.lengthWidth ++ value))

end Setting

namespace Builder

variable {b b' : Builder} {i : Nat} {type : FieldType} {value : List UInt8} {s : Setting}

/-- The record after a call of a setter, which is the record as it was if the call fails. -/
def after (b : Builder) (call : Nat × Setting) : Builder :=
  match call.2.set b call.1 with
  | .ok b' => b'
  | .error _ => b

/-- The record that calls of setters make of one with every field null. -/
def ofCalls (l : Layout) (calls : List (Nat × Setting)) : Builder := calls.foldl after (ofLayout l)

/-- The last of some calls on a field that succeeds. -/
def lastSetting (i : Nat) : Builder → List (Nat × Setting) → Option Setting
  | _, [] => none
  | b, (k, s) :: rest =>
    match lastSetting i (b.after (k, s)) rest with
    | some later => some later
    | none => if k = i ∧ (s.set b k).isOk then some s else none

theorem fixedWidth_eq_ok {width : Nat} : b.fixedWidth i = .ok width ↔ ∃ type,
    b.layout.fields[i]? = some type ∧ type.type.fixedWidth? = some width := by
  unfold fixedWidth
  simp only [Check.bind_eq_ok, Layout.field_eq_ok]
  refine exists_congr fun type => and_congr_right fun _ => ?_
  cases type.type.fixedWidth? <;> simp [pure, Except.pure, throw, throwThe, MonadExceptOf.throw]

theorem setNull_eq_ok : b.setNull i = .ok b' ↔ ∃ type,
    b.layout.fields[i]? = some type ∧ b.put i none = b' := by
  unfold setNull
  simp only [Layout.bind_field_eq_ok, pure, Except.pure, Except.ok.injEq]

theorem setInt_eq_ok {n : Int} : b.setInt i n = .ok b' ↔ ∃ type width,
    b.layout.fields[i]? = some type ∧ type.type.fixedWidth? = some width ∧
      b.put i (some (littleEndian n width)) = b' := by
  unfold setInt
  simp only [Check.bind_eq_ok, Check.lift_eq_ok, fixedWidth_eq_ok, pure, Except.pure,
    Except.ok.injEq]
  constructor
  · rintro ⟨width, ⟨type, found, fixed⟩, rfl⟩
    rw [integerBytes_eq (DataType.fixedWidth?_bounds fixed).2]
    exact ⟨type, width, found, fixed, rfl⟩
  · rintro ⟨type, width, found, fixed, rfl⟩
    rw [← integerBytes_eq (DataType.fixedWidth?_bounds fixed).2]
    exact ⟨width, ⟨type, found, fixed⟩, rfl⟩

theorem setDecimal_eq_ok {d : Decimal} : b.setDecimal i d = .ok b' ↔ ∃ type,
    b.layout.fields[i]? = some type ∧ ∃ bytes,
      d.encode type.descriptor.precision type.descriptor.scale = .ok bytes ∧
        b.put i (some bytes) = b' := by
  unfold setDecimal
  simp only [Check.bind_eq_ok, Check.lift_eq_ok, Layout.field_eq_ok, pure, Except.pure,
    Except.ok.injEq]

theorem lengthWidth_le (type : FieldType) : type.lengthWidth ≤ 4 := by
  unfold FieldType.lengthWidth TypeDescriptor.lengthWidth
  split_ifs <;> omega

theorem setBytes_eq_ok : b.setBytes i value = .ok b' ↔ ∃ type,
    b.layout.fields[i]? = some type ∧
      (type.lengthWidth ≠ 0 → value.length ≤ type.descriptor.maxPayload) ∧
        b.put i (some (littleEndian value.length type.lengthWidth ++ value)) = b' := by
  unfold setBytes
  rw [Layout.bind_field_eq_ok]
  refine exists_congr fun type => and_congr_right fun _ => ?_
  have most : type.lengthWidth ≤ 8 := Nat.le_trans (lengthWidth_le type) (by decide)
  rw [integerBytes_eq most]
  split
  case isTrue plain =>
    rw [plain]
    simp [littleEndian, pure, Except.pure]
  case isFalse counted =>
    simp only [Check.guard_eq_ok, Nat.not_lt, ne_eq, counted, not_false_eq_true, true_implies,
      pure, Except.pure, Except.ok.injEq]

theorem setString_eq_ok {text : String} : b.setString i text = .ok b' ↔ ∃ type,
    b.layout.fields[i]? = some type ∧ ∃ bytes, type.textCharset.encode text = .ok bytes ∧
      b.setBytes i bytes = .ok b' := by
  unfold setString
  rw [Layout.bind_field_eq_ok]
  refine exists_congr fun type => and_congr_right fun _ => ?_
  cases type.textCharset.encode text <;> simp [throw, throwThe, MonadExceptOf.throw]

/-- The setters that store an integer store it alike. -/
theorem set_eq_setInt {n : Int} (value : s.integer? = some n) : s.set b i = b.setInt i n := by
  cases s with
  | null | decimal | string | bytes => cases value
  | int | uint | float | double | date | dateTime | time | timestamp | year =>
    rw [← Option.some.inj value]
    rfl

/-- A setter that succeeds puts in the place of its field what its type makes of the value. -/
theorem stores_of_set_eq_ok (ok : s.set b i = .ok b') : ∃ type p,
    b.layout.fields[i]? = some type ∧ s.Stores type p ∧ b' = b.put i p := by
  cases s with
  | null =>
    obtain ⟨type, found, rfl⟩ := setNull_eq_ok.1 ok
    exact ⟨type, none, found, .null, rfl⟩
  | decimal d =>
    obtain ⟨type, found, bytes, encoded, rfl⟩ := setDecimal_eq_ok.1 ok
    exact ⟨type, _, found, .decimal encoded, rfl⟩
  | bytes value =>
    obtain ⟨type, found, fits, rfl⟩ := setBytes_eq_ok.1 ok
    exact ⟨type, _, found, .bytes fits, rfl⟩
  | string text =>
    obtain ⟨type, found, bytes, encoded, ok⟩ := setString_eq_ok.1 ok
    obtain ⟨type', found', fits, rfl⟩ := setBytes_eq_ok.1 ok
    cases found.symm.trans found'
    exact ⟨type, _, found, .string encoded fits, rfl⟩
  | int | uint | float | double | date | dateTime | time | timestamp | year =>
    obtain ⟨type, width, found, fixed, rfl⟩ := setInt_eq_ok.1 ok
    exact ⟨type, _, found, .integer rfl fixed, rfl⟩

theorem layout_after (b : Builder) (call : Nat × Setting) : (b.after call).layout = b.layout := by
  unfold after
  split
  case h_1 ok =>
    obtain ⟨_, _, _, _, rfl⟩ := stores_of_set_eq_ok ok
    rfl
  case h_2 => rfl

theorem Complete.after (complete : b.Complete) (call : Nat × Setting) :
    (b.after call).Complete := by
  unfold Complete at complete ⊢
  unfold Builder.after
  split
  case h_1 ok =>
    obtain ⟨_, _, _, _, rfl⟩ := stores_of_set_eq_ok ok
    rw [put, List.length_set]
    exact complete
  case h_2 => exact complete

/-- A call that fails changes no field, and a call that succeeds only its own. -/
theorem payloads_after (b : Builder) {k : Nat} (other : k ≠ i) (s : Setting) :
    (b.after (i, s)).payloads[k]? = b.payloads[k]? := by
  unfold after
  split
  case h_1 ok =>
    obtain ⟨_, _, _, _, rfl⟩ := stores_of_set_eq_ok ok
    exact List.getElem?_set_ne other.symm
  case h_2 => rfl

theorem complete_ofLayout (l : Layout) : (ofLayout l).Complete := List.length_replicate

theorem layout_foldl_after (b : Builder) (calls : List (Nat × Setting)) :
    (calls.foldl after b).layout = b.layout := by
  induction calls generalizing b with
  | nil => rfl
  | cons call rest ih => rw [List.foldl_cons, ih, layout_after]

theorem Complete.foldl_after (complete : b.Complete) (calls : List (Nat × Setting)) :
    (calls.foldl Builder.after b).Complete := by
  induction calls generalizing b with
  | nil => exact complete
  | cons call rest ih => exact ih (complete.after call)

theorem layout_ofCalls (l : Layout) (calls : List (Nat × Setting)) :
    (ofCalls l calls).layout = l :=
  layout_foldl_after (ofLayout l) calls

theorem complete_ofCalls (l : Layout) (calls : List (Nat × Setting)) :
    (ofCalls l calls).Complete :=
  (complete_ofLayout l).foldl_after calls

/-- In the place of a field is what the last call that succeeded on it stored there. -/
theorem payload_foldl_after (complete : b.Complete) (found : b.layout.fields[i]? = some type)
    (calls : List (Nat × Setting)) : ∃ p, (calls.foldl after b).payloads[i]? = some p ∧
      match lastSetting i b calls with
      | none => b.payloads[i]? = some p
      | some s => s.Stores type p := by
  induction calls generalizing b with
  | nil =>
    have inside : i < b.payloads.length := by
      rw [complete]
      exact (List.getElem?_eq_some_iff.1 found).1
    exact ⟨_, List.getElem?_eq_getElem inside, List.getElem?_eq_getElem inside⟩
  | cons call rest ih =>
    obtain ⟨k, s⟩ := call
    obtain ⟨p, there, stored⟩ := ih (complete.after (k, s)) (by rwa [layout_after])
    refine ⟨p, there, ?_⟩
    rw [lastSetting]
    cases later : lastSetting i (b.after (k, s)) rest with
    | some s' => rw [later] at stored; exact stored
    | none =>
      rw [later] at stored
      by_cases here : k = i
      case neg =>
        rw [payloads_after b (Ne.symm here)] at stored
        rwa [if_neg fun both => here both.1]
      case pos =>
        subst here
        cases ended : s.set b k with
        | error e =>
          have same : b.after (k, s) = b := by rw [Builder.after, ended]
          rw [same] at stored
          rwa [if_neg (by simp [Except.isOk, Except.toBool])]
        | ok b' =>
          have same : b.after (k, s) = b' := by rw [Builder.after, ended]
          rw [same] at stored
          rw [if_pos ⟨rfl, rfl⟩]
          obtain ⟨type', p', found', stores, rfl⟩ := stores_of_set_eq_ok ended
          cases found.symm.trans found'
          have inside : k < b.payloads.length := by
            rw [complete]
            exact (List.getElem?_eq_some_iff.1 found).1
          rw [put, List.getElem?_set_self inside] at stored
          cases stored
          exact stores

end Builder

end GroupedTables.Record
