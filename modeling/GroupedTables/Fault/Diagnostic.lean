import GroupedTables.Json.Decode
import GroupedTables.Json.Printer

/-!
# Diagnostics

What is shown of a fault: a stable code for programs, a message for people, and around it
whatever helps. A diagnostic can carry another one as its cause. It is rendered line by
line, each cause two columns further in than what it caused, and stored as JSON.
-/

namespace GroupedTables

structure Diagnostic where
  code : String
  /-- The statement that was being run. -/
  statement : Option String := none
  message : String
  label : Option String := none
  help : Option String := none
  notes : List String := []
  cause : Option Diagnostic := none
  deriving Repr, Inhabited

namespace Diagnostic

/-- The version that reports of broken invariants name. -/
def libraryVersion : String := "0.4.13"

/-- Where in the program a broken invariant was noticed. -/
structure Site where
  file : String
  line : Nat
  column : Nat
  component : String

/-- The report of a broken invariant, with the place where it was noticed. -/
def ofBrokenInvariant (reason : String) (site : Site) : Diagnostic where
  code := "INTERNAL_ERROR"
  message := s!"Internal error: {reason}"
  label := some s!"Internal invariant violated at {site.file}:{site.line}:{site.column}"
  help := some "This is an internal error that should never occur in normal operation."
  notes := [s!"Module: {site.component}", s!"Version: {libraryVersion}"]

/-- Hangs a cause under a diagnostic, in place of the one it has. -/
def withCause (d : Diagnostic) (cause : Diagnostic) : Diagnostic := { d with cause := some cause }

def withStatement (d : Diagnostic) (statement : String) : Diagnostic :=
  { d with statement := some statement }

/-- The lines of a diagnostic alone, before indentation. -/
def ownLines (d : Diagnostic) : List String :=
  s!"Error {d.code}" :: s!"  {d.message}" ::
    (d.statement.toList.map fun s => s!"  statement: {s}") ++
    (d.label.toList.map fun l => s!"  = {l}") ++
    (d.help.toList.map fun h => s!"  help: {h}") ++
    (d.notes.map fun n => s!"  note: {n}")

/-- Every line of a diagnostic and its causes, with the indentation of each. -/
def lines (depth : Nat) : Diagnostic → List (Nat × String)
  | ⟨code, statement, message, label, help, notes, cause⟩ =>
    (ownLines ⟨code, statement, message, label, help, notes, none⟩).map (depth, ·) ++
      match cause with
      | none => []
      | some c => (depth, "  caused by:") :: lines (depth + 1) c

/-- The diagnostic for people. The indentation stands once before each line, also before a
line whose text itself has line breaks. -/
def render (d : Diagnostic) : String :=
  String.join <| (d.lines 0).map fun (depth, line) =>
    String.ofList (List.replicate (2 * depth) ' ') ++ line ++ "\n"

def toJson : Diagnostic → Json
  | ⟨code, statement, message, label, help, notes, cause⟩ =>
    .object [
      ("code", .string code),
      ("statement", Json.optional .string statement),
      ("message", .string message),
      ("label", Json.optional .string label),
      ("help", Json.optional .string help),
      ("notes", Json.list .string notes),
      ("cause", match cause with | none => .null | some c => c.toJson)]

def fieldNames : List String :=
  ["code", "statement", "message", "label", "help", "notes", "cause"]

/-- Reads the stored form with no more than so many diagnostics one under the other. -/
def ofJsonWithin : Nat → Json → Option Diagnostic
  | 0, _ => none
  | levels + 1, v => do
    let fields ← v.record? fieldNames
    let code ← fields.required "code" Json.string?
    let statement ← fields.absentOr "statement" Json.string?
    let message ← fields.required "message" Json.string?
    let label ← fields.absentOr "label" Json.string?
    let help ← fields.absentOr "help" Json.string?
    let notes ← fields.required "notes" (Json.list? Json.string?)
    let cause ← fields.absentOr "cause" (ofJsonWithin levels)
    return { code, statement, message, label, help, notes, cause }

/-- Most diagnostics one under the other in a stored form: what is read from it may be nested
127 levels deep, and the notes of the last one are a level of their own. -/
def deepestCause : Nat := 126

def ofJson? (v : Json) : Option Diagnostic := ofJsonWithin deepestCause v

end Diagnostic

end GroupedTables
