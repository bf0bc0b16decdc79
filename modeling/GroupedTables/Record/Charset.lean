import GroupedTables.Fault.Basic
import GroupedTables.Text.Bytes
import GroupedTables.Text.Normal
import GroupedTables.Text.Shown

/-!
# Charsets

How text becomes bytes and back. In the one-byte charsets a character is its own code
point; in the other one it takes up to four bytes. A registry gives charsets the names
they can be declared by.
-/

namespace GroupedTables

/-- A way to write text as bytes. -/
inductive Charset where
  | utf8
  | latin1
  | ascii
  deriving Repr, DecidableEq, Inhabited

/-- Why text and bytes do not match. -/
inductive CodingError where
  /-- The bytes up to a position are text, and what follows is not. -/
  | invalidUtf8 (validUpTo : Nat)
  | invalidByte (charset : Charset) (byte : UInt8) (position : Nat)
  | unmappable (charset : Charset) (character : Char)
  | unknownCharset (name : String)
  deriving Repr, DecidableEq

namespace Charset

def name : Charset → String
  | utf8 => "utf8"
  | latin1 => "latin1"
  | ascii => "ascii"

/-- The greatest code point a one-byte charset has. -/
def limit? : Charset → Option Nat
  | utf8 => none
  | latin1 => some 0xFF
  | ascii => some 0x7F

end Charset

namespace CodingError

def kind : CodingError → String
  | invalidUtf8 .. => "InvalidUtf8"
  | invalidByte .. => "InvalidByte"
  | unmappable .. => "Unmappable"
  | unknownCharset .. => "UnknownCharset"

def message : CodingError → String
  | invalidUtf8 validUpTo => s!"invalid utf8 sequence after {validUpTo} bytes"
  | invalidByte charset byte position =>
    s!"byte 0x{String.ofList (Text.byteHex byte)} at {position} is not valid {charset.name}"
  | unmappable charset character =>
    s!"character {Text.shown character} cannot be encoded as {charset.name}"
  | unknownCharset name => s!"unknown charset {name}"

/-- The mismatch as the fault of an operation on a row. -/
def fault (e : CodingError) : Fault := .undecodable e.message

end CodingError

namespace Charset

/-- Bytes of a one-byte charset as characters, from a position on. -/
def decodeSingle (charset : Charset) (limit : Nat) :
    Nat → List UInt8 → Except CodingError (List Char)
  | _, [] => .ok []
  | position, b :: rest =>
    if b.toNat ≤ limit then
      (decodeSingle charset limit (position + 1) rest).map (Char.ofNat b.toNat :: ·)
    else .error (.invalidByte charset b position)

def encodeSingle (charset : Charset) (limit : Nat) : List Char → Except CodingError (List UInt8)
  | [] => .ok []
  | c :: rest =>
    if c.toNat ≤ limit then
      (encodeSingle charset limit rest).map (UInt8.ofNat c.toNat :: ·)
    else .error (.unmappable charset c)

def decode (charset : Charset) (bytes : List UInt8) : Except CodingError String :=
  match charset.limit? with
  | none => (Text.ofBytes bytes).mapError .invalidUtf8
  | some limit => (decodeSingle charset limit 0 bytes).map String.ofList

def encode (charset : Charset) (text : String) : Except CodingError (List UInt8) :=
  match charset.limit? with
  | none => .ok (Text.textBytes text)
  | some limit => encodeSingle charset limit text.toList

end Charset

/-- The names charsets are declared by, the latest registration first. -/
structure CharsetRegistry where
  named : List (String × Charset) := []

namespace CharsetRegistry

def empty : CharsetRegistry := {}

/-- Gives a charset a name, whatever the case of its letters. -/
def register (r : CharsetRegistry) (name : String) (charset : Charset) : CharsetRegistry :=
  ⟨(Text.asciiLower name, charset) :: r.named⟩

def resolve (r : CharsetRegistry) (name : String) : Except CodingError Charset :=
  match r.named.lookup (Text.asciiLower name) with
  | some charset => .ok charset
  | none => .error (.unknownCharset name)

/-- The usual names, from the first to the last registration. -/
def standardNames : List (String × Charset) := [
  ("utf8", .utf8), ("utf-8", .utf8), ("utf8mb4", .utf8),
  ("latin1", .latin1), ("iso-8859-1", .latin1),
  ("ascii", .ascii), ("us-ascii", .ascii)]

def standard : CharsetRegistry :=
  standardNames.foldl (fun r (name, charset) => r.register name charset) empty

/-- A name that was just registered means what it was registered for. -/
theorem resolve_register (r : CharsetRegistry) (name : String) (charset : Charset) :
    (r.register name charset).resolve name = .ok charset := by
  simp [register, resolve]

end CharsetRegistry

end GroupedTables
