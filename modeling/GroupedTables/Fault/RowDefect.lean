/-!
# Defects of row records

Why a row record, or a value on its way into one, does not match its layout.
-/

namespace GroupedTables

/-- A mismatch between a row record and its layout. -/
inductive RowDefect where
  | decimalOverflow (value : String) (precision scale : Nat)
  | decimalWidth (precision scale expected found : Nat)
  | noSuchField (field fields : Nat)
  | shorterThanFooter (size footer : Nat)
  /-- The footer puts a field outside the data before it. -/
  | outsideData (field start stop size : Nat)
  | notFixedWidth (field : Nat) (type : String)
  | payloadTooLong (size field most : Nat)
  | integerWidth (width : Nat)
  | integerPastEnd (start stop : Nat)
  /-- A location reaches past the end of the record. -/
  | pastEnd (field start stop size : Nat)
  | shorterThanLength (field : Nat)
  | lengthMismatch (field declared spanned : Nat)
  | timestampOutOfRange (seconds : Int)
  /-- A defect found by a collaborator, in its own words. -/
  | reported (reason : String)
  deriving Repr, DecidableEq

namespace RowDefect

def message : RowDefect → String
  | decimalOverflow value precision scale => s!"{value} does not fit DECIMAL({precision}, {scale})"
  | decimalWidth precision scale expected found =>
    s!"DECIMAL({precision}, {scale}) needs {expected} bytes, found {found}"
  | noSuchField field fields => s!"field {field} out of range for a row of {fields} fields"
  | shorterThanFooter size footer =>
    s!"record of {size} bytes is shorter than its {footer} byte footer"
  | outsideData field start stop size =>
    s!"field {field} spans {start}..{stop} outside of {size} data bytes"
  | notFixedWidth field type => s!"field {field} of type {type} is not fixed width"
  | payloadTooLong size field most =>
    s!"{size} bytes do not fit field {field} of at most {most} bytes"
  | integerWidth width => s!"integer width {width} is not within 1..=8"
  | integerPastEnd start stop => s!"integer at {start}..{stop} past the end of the record"
  | pastEnd field start stop size => s!"field {field} spans {start}..{stop} of a {size} byte record"
  | shorterThanLength field => s!"field {field} is shorter than its length prefix"
  | lengthMismatch field declared spanned =>
    s!"field {field} declares {declared} bytes but spans {spanned}"
  | timestampOutOfRange seconds => s!"timestamp {seconds} is out of range"
  | reported reason => reason

end RowDefect

end GroupedTables
