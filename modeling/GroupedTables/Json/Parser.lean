import GroupedTables.Json.Basic
import GroupedTables.Text.Digits

/-!
# Reading JSON

The grammar of JSON and nothing besides: no comments, no trailing commas, no leading
zeros, no raw controls inside a text, and nothing but blanks after the value. A text is
read in two steps, first into numbers (a character, or the sixteen bits an escape names),
then into characters, because only there a surrogate finds its other half.
-/

namespace GroupedTables.Json

open Text

/-- Drops the blanks that JSON allows between tokens. -/
def skipBlanks (cs : List Char) : List Char :=
  cs.dropWhile fun c => c = ' ' || c = '\n' || c = '\t' || c = '\r'

/-- The number four hexadecimal digits stand for. -/
def fourHex? (a b c d : Char) : Option Nat := do
  let a ← hexValue? a
  let b ← hexValue? b
  let c ← hexValue? c
  let d ← hexValue? d
  return ((a * 16 + b) * 16 + c) * 16 + d

def shortEscape? (c : Char) : Option Nat :=
  if c = '"' then some 34
  else if c = '\\' then some 92
  else if c = '/' then some 47
  else if c = 'b' then some 8
  else if c = 'f' then some 12
  else if c = 'n' then some 10
  else if c = 'r' then some 13
  else if c = 't' then some 9
  else none

/-- The units of a text up to its closing quote, and what follows the quote. -/
def textUnits : List Char → Option (List Nat × List Char)
  | [] => none
  | '"' :: rest => some ([], rest)
  | '\\' :: 'u' :: a :: b :: c :: d :: rest => do
    let n ← fourHex? a b c d
    let (units, rest) ← textUnits rest
    return (n :: units, rest)
  | '\\' :: c :: rest => do
    let n ← shortEscape? c
    let (units, rest) ← textUnits rest
    return (n :: units, rest)
  | c :: rest =>
    if c.toNat < 32 then none
    else do
      let (units, rest) ← textUnits rest
      return (c.toNat :: units, rest)

/-- Whether the number is the first half of a surrogate pair. -/
def isHighHalf (n : Nat) : Bool := 0xD800 ≤ n && n < 0xDC00

/-- Whether the number is the second half of a surrogate pair. -/
def isLowHalf (n : Nat) : Bool := 0xDC00 ≤ n && n < 0xE000

/-- The characters that units stand for, unless half a pair stands alone. -/
def joinUnits : List Nat → Option (List Char)
  | [] => some []
  | [n] => if isHighHalf n || isLowHalf n then none else some [Char.ofNat n]
  | n :: m :: rest =>
    if isHighHalf n then
      if isLowHalf m then
        (joinUnits rest).map (Char.ofNat (0x10000 + (n - 0xD800) * 0x400 + (m - 0xDC00)) :: ·)
      else none
    else if isLowHalf n then none
    else (joinUnits (m :: rest)).map (Char.ofNat n :: ·)

/-- A text after its opening quote: the text if its escapes name characters, and what
follows it. -/
def textBody (cs : List Char) : Option (Option String × List Char) := do
  let (units, rest) ← textUnits cs
  return ((joinUnits units).map String.ofList, rest)

/-- Whether a text after its opening quote has an escape: a backslash before the next quote,
for a quote inside the text has a backslash before it. -/
def hasEscape (cs : List Char) : Bool := (cs.takeWhile fun c => c != '"').contains '\\'

/-- A key after its opening quote, if its escapes name characters, and what follows it. -/
def keyBody (cs : List Char) : Option (Option Key × List Char) := do
  let (text, rest) ← textBody cs
  return (text.map fun t => { text := t, escaped := hasEscape cs }, rest)

/-- The digits at the front, at least one of them. -/
def someDigits (cs : List Char) : Option (List Char × List Char) :=
  match cs.takeWhile Char.isDigit with
  | [] => none
  | ds => some (ds, cs.dropWhile Char.isDigit)

/-- The fraction of a number, if there is one: its spelling and the rest. -/
def fraction (cs : List Char) : Option (List Char × List Char) :=
  match cs with
  | '.' :: rest => (someDigits rest).map fun (ds, rest) => ('.' :: ds, rest)
  | _ => some ([], cs)

/-- The exponent of a number, if there is one: its spelling and the rest. -/
def exponent (cs : List Char) : Option (List Char × List Char) :=
  match cs with
  | c :: rest =>
    if c = 'e' || c = 'E' then
      match rest with
      | s :: digits =>
        if s = '+' || s = '-' then (someDigits digits).map fun (ds, rest) => (c :: s :: ds, rest)
        else (someDigits rest).map fun (ds, rest) => (c :: ds, rest)
      | [] => none
    else some ([], cs)
  | [] => some ([], [])

/-- A number without its sign. A whole number has neither fraction nor exponent and is not
a negative zero. -/
def unsignedNumber (negative : Bool) (cs : List Char) : Option (Json × List Char) := do
  let (whole, rest) ← someDigits cs
  if whole.length > 1 && whole.head? = some '0' then none
  else
    let (point, rest) ← fraction rest
    let (power, rest) ← exponent rest
    let n := digitsValue whole
    if point.isEmpty && power.isEmpty && !(negative && n == 0) then
      return (.int (if negative then -(n : Int) else n), rest)
    else
      let sign := if negative then ['-'] else []
      return (.real (String.ofList (sign ++ whole ++ point ++ power)), rest)

mutual

/-- A value at the front, and what follows it. -/
def value : Nat → List Char → Option (Json × List Char)
  | 0, _ => none
  | fuel + 1, cs =>
    match skipBlanks cs with
    | 'n' :: 'u' :: 'l' :: 'l' :: rest => some (.null, rest)
    | 't' :: 'r' :: 'u' :: 'e' :: rest => some (.bool true, rest)
    | 'f' :: 'a' :: 'l' :: 's' :: 'e' :: rest => some (.bool false, rest)
    | '"' :: rest => do
      let (text, rest) ← textBody rest
      return (text.elim .unreadable .string, rest)
    | '[' :: rest =>
      match skipBlanks rest with
      | ']' :: rest => some (.array [], rest)
      | rest => do
        let (items, rest) ← items fuel rest
        return (.array items, rest)
    | '\x7b' :: rest =>
      match skipBlanks rest with
      | '\x7d' :: rest => some (.object [], rest)
      | rest => do
        let (members, rest) ← members fuel rest
        return (members.elim .unreadable .object, rest)
    | '-' :: rest => unsignedNumber true rest
    | rest => unsignedNumber false rest

/-- The items of an array up to its closing bracket. -/
def items : Nat → List Char → Option (List Json × List Char)
  | 0, _ => none
  | fuel + 1, cs => do
    let (v, rest) ← value fuel cs
    match skipBlanks rest with
    | ',' :: rest =>
      let (vs, rest) ← items fuel rest
      return (v :: vs, rest)
    | ']' :: rest => return ([v], rest)
    | _ => none

/-- The members of an object up to its closing brace; none in place of the list if a key
cannot be read. -/
def members : Nat → List Char → Option (Option (List (Key × Json)) × List Char)
  | 0, _ => none
  | fuel + 1, cs =>
    match skipBlanks cs with
    | '"' :: rest => do
      let (key, rest) ← keyBody rest
      match skipBlanks rest with
      | ':' :: rest =>
        let (v, rest) ← value fuel rest
        let member := key.map fun k => (k, v)
        match skipBlanks rest with
        | ',' :: rest =>
          let (more, rest) ← members fuel rest
          return (member.bind fun m => more.map (m :: ·), rest)
        | '\x7d' :: rest => return (member.map ([·]), rest)
        | _ => none
      | _ => none
    | _ => none

end

/-- The value a text spells, if it spells exactly one. Every nested value takes at least one
character, so the length of the text bounds the depth of the reading. -/
def parse? (text : String) : Option Json :=
  let cs := text.toList
  match value (2 * cs.length + 1) cs with
  | some (v, rest) => if skipBlanks rest = [] then some v else none
  | none => none

end GroupedTables.Json
