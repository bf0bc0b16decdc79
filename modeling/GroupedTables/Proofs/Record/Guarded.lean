import GroupedTables.Proofs.Record.Rebuilding
import GroupedTables.Proofs.Machine

/-!
# Integers and locations, guarded

Integers and locations read step by step as a machine reads them: a footer entry byte by byte, an
integer shifted together from its bytes, its sign extended by shifting it up and down again. No
step traps, whatever the bytes are.
-/

namespace GroupedTables

namespace Record

open Machine

variable {bytes : List UInt8} {offset width : Nat}

theorem ofBigEndian_reverse (bytes : List UInt8) :
    Decimal.ofBigEndian bytes.reverse = ofLittleEndian bytes := by
  induction bytes with
  | nil => rfl
  | cons b rest ih =>
    rw [List.reverse_cons, Decimal.ofBigEndian, List.foldl_append, ← Decimal.ofBigEndian, ih]
    exact Nat.add_comm ..

/-- Shifting a number up to the top of its word and down again extends its sign. -/
theorem bmod_shifted {raw : Nat} (least : 1 ≤ width) (most : width ≤ 8)
    (small : raw < 256 ^ width) :
    ((raw * 2 ^ (64 - width * 8) % 2 ^ 64 : Nat) : Int).bmod (2 ^ 64) / 2 ^ (64 - width * 8) =
      twosComplement width raw := by
  obtain rfl | rfl | rfl | rfl | rfl | rfl | rfl | rfl : width = 1 ∨ width = 2 ∨ width = 3 ∨
    width = 4 ∨ width = 5 ∨ width = 6 ∨ width = 7 ∨ width = 8 := by omega
  all_goals
    simp only [twosComplement, Int.bmod, Nat.pow_eq]
    omega

namespace Guarded

/-- The natural number of one to eight bytes at an offset. -/
def unsignedAt (bytes : List UInt8) (offset width : Nat) : Machine RowDefect Nat := do
  if width < 1 ∨ 8 < width then throw (.integerWidth width)
  let stop ← add offset width
  if bytes.length < stop then throw (.integerPastEnd offset stop)
  let cut ← slice bytes offset (← add offset width)
  joinBytes 64 cut.reverse

/-- The integer of one to eight bytes at an offset. -/
def signedAt (bytes : List UInt8) (offset width : Nat) : Machine RowDefect Int := do
  let raw ← unsignedAt bytes offset width
  let places ← sub 64 (← mul width 8)
  let top ← shiftUp 64 raw places
  shiftDown (Int.bmod top (2 ^ 64)) places

theorem gives_unsignedAt (fits : offset + width < Word.bound) :
    (unsignedAt bytes offset width).Gives (Record.unsignedAt bytes offset width) := by
  unfold unsignedAt Record.unsignedAt
  refine Gives.ite (fun _ => rfl) fun within => ?_
  refine (gives_add fits).step ?_
  refine Gives.ite (fun _ => rfl) fun inside => ?_
  refine (gives_add fits).step ((gives_slice (Nat.le_add_right ..) (Nat.not_lt.1 inside)).step ?_)
  rw [Nat.add_sub_cancel_left, ← ofBigEndian_reverse]
  refine gives_joinBytes (by decide) ?_
  rw [List.length_reverse, length_span (Nat.not_lt.1 inside)]
  omega

theorem gives_signedAt (fits : offset + width < Word.bound) :
    (signedAt bytes offset width).Gives (Record.signedAt bytes offset width) := by
  have plainly : Record.signedAt bytes offset width =
      Record.unsignedAt bytes offset width >>= fun raw => .ok (twosComplement width raw) := by
    unfold Record.signedAt
    cases Record.unsignedAt bytes offset width <;> rfl
  rw [plainly]
  refine (gives_unsignedAt fits).bind fun raw read => ?_
  unfold Record.unsignedAt at read
  split at read
  · cases read
  case isFalse within =>
    split at read
    · cases read
    case isFalse inside =>
      cases read
      have small := ofLittleEndian_lt (span bytes offset width)
      rw [length_span (Nat.not_lt.1 inside)] at small
      rw [← bmod_shifted (by omega) (by omega) small]
      have fits : width * 8 < Word.bound := by
        unfold Word.bound
        omega
      refine (gives_mul fits).step ((gives_sub (by omega)).step ?_)
      exact (gives_shiftUp (by omega)).step (gives_shiftDown (by omega))

/-- Where a field lies, as one word. -/
def packLocation (offset width : Nat) : Machine RowDefect Nat :=
  if width = 0 then pure 0 else return (← shiftUp 64 width 32) ||| offset

/-- The end offset of a field, from the footer behind so many bytes of data. -/
def endOffset (bytes : List UInt8) (dataSize index : Nat) : Machine RowDefect Nat := do
  let place ← add dataSize (← mul index footerEntrySize)
  let first ← entry bytes place
  let second ← entry bytes (← add place 1)
  let third ← entry bytes (← add place 2)
  let fourth ← entry bytes (← add place 3)
  return ofLittleEndian [first, second, third, fourth]

def startOffset (bytes : List UInt8) (dataSize index : Nat) : Machine RowDefect Nat :=
  if index = 0 then pure 0 else do endOffset bytes dataSize (← sub index 1)

def location (l : Layout) (bytes : List UInt8) (index : Nat) : Machine RowDefect Nat := do
  let _ ← liftM (l.field index)
  let footer ← mul l.size footerEntrySize
  if bytes.length < footer then throw (.shorterThanFooter bytes.length footer)
  let dataSize ← sub bytes.length footer
  let start ← startOffset bytes dataSize index
  let stop ← endOffset bytes dataSize index
  if stop < start ∨ dataSize < stop then throw (.outsideData index start stop dataSize)
  packLocation start (← sub stop start)

theorem gives_packLocation :
    (packLocation offset width).Gives (.ok (Record.packLocation offset width)) := by
  unfold packLocation Record.packLocation
  split
  · exact gives_pure _
  · exact (gives_shiftUp (by decide)).step (gives_pure _)

/-- The first of the bytes at an offset, and the others. -/
theorem span_succ (inside : offset < bytes.length) :
    span bytes offset (width + 1) = bytes[offset] :: span bytes (offset + 1) width := by
  rw [span, List.drop_eq_getElem_cons inside, List.take_succ_cons]
  rfl

/-- The footer is large enough for an end offset of every field. -/
theorem gives_endOffset {dataSize index : Nat} (small : bytes.length < Word.bound)
    (inside : dataSize + (index + 1) * footerEntrySize ≤ bytes.length) :
    (endOffset bytes dataSize index).Gives (.ok (Layout.endOffset bytes dataSize index)) := by
  unfold Layout.endOffset endOffset
  rw [footerEntrySize] at inside ⊢
  have first : dataSize + index * 4 < bytes.length := by omega
  have second : dataSize + index * 4 + 1 < bytes.length := by omega
  have third : dataSize + index * 4 + 2 < bytes.length := by omega
  have fourth : dataSize + index * 4 + 3 < bytes.length := by omega
  rw [span_succ first, span_succ second, span_succ third, span_succ fourth]
  refine (gives_mul (by omega)).step ((gives_add (by omega)).step ?_)
  refine (gives_entry (List.getElem?_eq_getElem first)).step ?_
  refine (gives_add (by omega)).step ((gives_entry (List.getElem?_eq_getElem second)).step ?_)
  refine (gives_add (by omega)).step ((gives_entry (List.getElem?_eq_getElem third)).step ?_)
  refine (gives_add (by omega)).step ((gives_entry (List.getElem?_eq_getElem fourth)).step ?_)
  exact gives_pure _

theorem gives_startOffset {dataSize index : Nat} (small : bytes.length < Word.bound)
    (inside : dataSize + index * footerEntrySize ≤ bytes.length) :
    (startOffset bytes dataSize index).Gives (.ok (Layout.startOffset bytes dataSize index)) := by
  cases index with
  | zero => exact gives_pure _
  | succ index => exact (gives_sub (Nat.le_add_left ..)).step (gives_endOffset small inside)

theorem gives_location {l : Layout} {index : Nat} (small : bytes.length < Word.bound)
    (footer : l.footerSize < Word.bound) :
    (location l bytes index).Gives (l.location bytes index) := by
  unfold location Layout.location
  refine (gives_lift _).bind fun type found => ?_
  refine (gives_mul footer).step (Gives.ite (fun _ => rfl) fun long => ?_)
  have within : index < l.size := (List.getElem?_eq_some_iff.1 (Layout.field_eq_ok.1 found)).1
  have behind : bytes.length - l.footerSize + l.size * footerEntrySize = bytes.length :=
    Nat.sub_add_cancel (Nat.not_lt.1 long)
  have entry : bytes.length - l.footerSize + (index + 1) * footerEntrySize ≤ bytes.length :=
    Nat.le_trans (Nat.add_le_add_left (Nat.mul_le_mul_right _ within) _) (Nat.le_of_eq behind)
  have before := Nat.le_trans
    (Nat.add_le_add_left (Nat.mul_le_mul_right footerEntrySize (Nat.le_succ index)) _) entry
  refine (gives_sub (Nat.not_lt.1 long)).step ?_
  refine (gives_startOffset small before).step ((gives_endOffset small entry).step ?_)
  refine Gives.ite (fun _ => rfl) fun ordered => ?_
  exact (gives_sub (by omega)).step gives_packLocation

end Guarded

end Record

end GroupedTables
