import GroupedTables.Json.Basic

/-!
# Change lists

What an alteration does to the columns or the indexes of a table is listed by name. The
list is read in two directions: forwards for the name that something ends up with, and
backwards for the name it had. In both, the first entry that has the name decides, and a
name no entry has stays as it is.
-/

namespace GroupedTables

inductive Change where
  | add (new : String)
  | drop (old : String)
  | modify (old new : String)
  deriving Repr, DecidableEq

namespace Change

def oldName? : Change → Option String
  | add _ => none
  | drop old => some old
  | modify old _ => some old

def newName? : Change → Option String
  | add new => some new
  | drop _ => none
  | modify _ new => some new

/-- The name by which a change is known: the one before, if there is one. -/
def name : Change → String
  | add new => new
  | drop old => old
  | modify old _ => old

def keyword : Change → String
  | add _ => "ADD"
  | drop _ => "DROP"
  | modify .. => "MODIFY"

def storedKind : Change → String
  | add _ => "Add"
  | drop _ => "Drop"
  | modify .. => "Modify"

def text : Change → String
  | modify old new => s!"MODIFY {old}->{new}"
  | c => s!"{c.keyword} {c.name}"

def isAdd : Change → Bool
  | add _ => true
  | _ => false

def isDrop : Change → Bool
  | drop _ => true
  | _ => false

def toJson (c : Change) : Json :=
  .object [
    ("kind", .string c.storedKind),
    ("old_name", Json.optional .string c.oldName?),
    ("new_name", Json.optional .string c.newName?)]

/-- What a list does to something with an old name. -/
def ofOldName? (changes : List Change) (old : String) : Option Change :=
  changes.find? fun c => c.oldName? == some old

/-- The name that something with an old name ends up with, unless it is dropped. -/
def finalName? (changes : List Change) (old : String) : Option String :=
  match ofOldName? changes old with
  | some c => c.newName?
  | none => some old

/-- The name that something had which now has a name, unless it was added. -/
def formerName? (changes : List Change) (name : String) : Option String :=
  match changes.find? fun c => c.newName? == some name with
  | some c => c.oldName?
  | none => some name

@[simp] theorem finalName?_nil (old : String) : finalName? [] old = some old := rfl

@[simp] theorem formerName?_nil (name : String) : formerName? [] name = some name := rfl

theorem finalName?_cons (c : Change) (rest : List Change) (old : String) :
    finalName? (c :: rest) old =
      if c.oldName? = some old then c.newName? else finalName? rest old := by
  by_cases h : c.oldName? = some old <;> simp [finalName?, ofOldName?, h]

end Change

end GroupedTables
