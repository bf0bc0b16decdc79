import GroupedTables.Alter.Context
import GroupedTables.DataType.Descriptor
import GroupedTables.Floating.Text
import GroupedTables.Text.Normal
import GroupedTables.Word

/-!
# Narrowing to integers

A literal default that stays with a column whose type becomes an integer type is made an
integer of that type: its numeric start is read as a float, rounded, and put into the range
of the type. Every step that changes the value tells so.
-/

namespace GroupedTables.Narrowing

open Floating

/-- The nearest integer of eight bytes, a half going up: the floor of the sum with one half.
The sum is itself a float, so a value just below a half can go up as well. -/
def nearestWord (x : Number) : Int :=
  match x.addHalf with
  | .nan => 0
  | .infinite negative => if negative then Word.least else Word.greatest
  | .finite negative m q => Word.saturate (Number.floor negative m q)

/-- The value, or the bound that it is beyond. -/
def clamp (greatest least value : Int) : Action Context Int := do
  if greatest < value then
    Context.tell (toString value) (toString greatest)
    return greatest
  else if value < least then
    Context.tell (toString value) (toString least)
    return least
  else
    return value

/-- Rounds a number and puts it into a range. -/
def round (greatest least : Int) (x : Number) : Action Context Int := do
  let rounded := nearestWord x
  if !(Number.ofInt rounded).sameValue x then
    Context.tell (binary64.text x) (toString rounded)
  clamp greatest least rounded

/-- Whether a text starts like a number: with a digit, or with a digit behind one other
character. -/
def startsNumeric : List Char → Bool
  | [] => false
  | [c] => c.isDigit
  | c :: d :: _ => c.isDigit || (c.toNat < 128 && d.isDigit)

/-- Digits with at most one point among them, as many as there are. -/
def numericPart (seenPoint : Bool) : List Char → List Char
  | [] => []
  | c :: rest =>
    if c.isDigit then c :: numericPart seenPoint rest
    else if c = '.' && !seenPoint then c :: numericPart true rest
    else []

/-- The numeric start of a text whatever its first character is, or zero if it has none. -/
def numericStart (text : String) : Action Context String := do
  let cs := Text.trimChars text.toList
  let kept : List Char :=
    match cs with
    | c :: rest => if startsNumeric cs then c :: numericPart false rest else ['0']
    | [] => ['0']
  if startsNumeric cs && kept = cs then
    return String.ofList cs
  Context.tell (String.ofList cs) (String.ofList kept)
  return String.ofList kept

/-- The number a literal stands for, by its numeric start if it is not one as a whole. -/
def literalNumber (literal : String) : Action Context Number := do
  match number? (Text.trim literal) with
  | some x => return x
  | none =>
    let start ← numericStart literal
    return (number? start).getD (.finite false 0 0)

/-- A literal default as one of another type. Only integers make a difference to it. -/
def literalFor (d : TypeDescriptor) (literal : String) : Action Context String := do
  match d.integerRange? with
  | none => return literal
  | some (least, greatest) =>
    let x ← literalNumber literal
    return toString (← round (Word.saturate greatest) (Word.saturate least) x)

end GroupedTables.Narrowing
