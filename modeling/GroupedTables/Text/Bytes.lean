/-!
# Text as bytes

The standard byte form of text, and reading it back: one to four bytes a character, the
shortest form only, no halves of surrogate pairs and nothing past the last code point. One
step takes one character off the front, so the bytes before a failure are always whole
characters.
-/

namespace GroupedTables.Text

def charBytes (c : Char) : List UInt8 := String.utf8EncodeChar c

def textBytes (s : String) : List UInt8 := s.toList.flatMap charBytes

/-- Six more bits of a character, from a byte that continues it. -/
def continued? (n : Nat) (b : UInt8) : Option Nat :=
  if 0x80 ≤ b.toNat ∧ b.toNat < 0xC0 then some (n * 64 + (b.toNat - 0x80)) else none

/-- A number as a character, if it needs as many bytes as it was found in. -/
def charFrom? (least n : Nat) : Option Char :=
  if h : n.isValidChar ∧ least ≤ n then some (Char.ofNatAux n h.1) else none

/-- The character at the front, and how many bytes it takes. -/
def firstChar? : List UInt8 → Option (Char × Nat)
  | [] => none
  | a :: rest =>
    if a.toNat < 0x80 then (charFrom? 0 a.toNat).map (·, 1)
    else if a.toNat < 0xC0 then none
    else if a.toNat < 0xE0 then
      match rest with
      | b :: _ => do
        let n ← continued? (a.toNat - 0xC0) b
        let c ← charFrom? 0x80 n
        return (c, 2)
      | _ => none
    else if a.toNat < 0xF0 then
      match rest with
      | b :: c :: _ => do
        let n ← continued? (a.toNat - 0xE0) b
        let n ← continued? n c
        let c ← charFrom? 0x800 n
        return (c, 3)
      | _ => none
    else if a.toNat < 0xF8 then
      match rest with
      | b :: c :: d :: _ => do
        let n ← continued? (a.toNat - 0xF0) b
        let n ← continued? n c
        let n ← continued? n d
        let c ← charFrom? 0x10000 n
        return (c, 4)
      | _ => none
    else none

/-- The characters of bytes, or how many bytes at the front are whole characters. Every
character takes at least one byte, so the number of bytes bounds the number of steps. -/
def charsWithin : Nat → Nat → List UInt8 → Except Nat (List Char)
  | _, _, [] => .ok []
  | 0, done, _ :: _ => .error done
  | fuel + 1, done, bytes@(_ :: _) =>
    match firstChar? bytes with
    | none => .error done
    | some (c, n) => (charsWithin fuel (done + n) (bytes.drop n)).map (c :: ·)

/-- The text of bytes, or how many bytes at the front are whole characters. -/
def ofBytes (bytes : List UInt8) : Except Nat String :=
  (charsWithin bytes.length 0 bytes).map String.ofList

end GroupedTables.Text
