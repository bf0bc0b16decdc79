import GroupedTables.Json.Basic
import GroupedTables.Text.Digits

/-!
# Writing JSON

The compact form: no spaces, members in the order they are given, and only the
characters escaped that JSON does not allow inside a text. Each character is escaped
on its own, so the written form of a text is the concatenation of the written forms
of its characters.
-/

namespace GroupedTables.Json

open Text

/-- A character as it stands in a JSON text: quote, backslash and the controls below
U+0020 are escaped, with the short escape where JSON has one. -/
def escapeChar (c : Char) : List Char :=
  if c = '"' then ['\\', '"']
  else if c = '\\' then ['\\', '\\']
  else if c.toNat = 8 then ['\\', 'b']
  else if c.toNat = 12 then ['\\', 'f']
  else if c = '\n' then ['\\', 'n']
  else if c = '\r' then ['\\', 'r']
  else if c = '\t' then ['\\', 't']
  else if c.toNat < 32 then
    ['\\', 'u', '0', '0', smallHexDigit (c.toNat / 16), smallHexDigit (c.toNat % 16)]
  else [c]

def quoted (s : String) : List Char := '"' :: s.toList.flatMap escapeChar ++ ['"']

/-- A whole number in base ten. -/
def intChars : Int → List Char
  | .ofNat n => digits n
  | .negSucc n => '-' :: digits (n + 1)

mutual

def chars : Json → List Char
  | .null => ['n', 'u', 'l', 'l']
  | .bool true => ['t', 'r', 'u', 'e']
  | .bool false => ['f', 'a', 'l', 's', 'e']
  | .int n => intChars n
  | .real lexeme => lexeme.toList
  | .string s => quoted s
  | .unreadable => ['n', 'u', 'l', 'l']
  | .array items => '[' :: itemChars items ++ [']']
  | .object members => '\x7b' :: memberChars members ++ ['\x7d']

def itemChars : List Json → List Char
  | [] => []
  | [v] => chars v
  | v :: rest => chars v ++ ',' :: itemChars rest

def memberChars : List (Key × Json) → List Char
  | [] => []
  | [(k, v)] => quoted k.text ++ ':' :: chars v
  | (k, v) :: rest => quoted k.text ++ ':' :: chars v ++ ',' :: memberChars rest

end

def print (v : Json) : String := String.ofList v.chars

end GroupedTables.Json
