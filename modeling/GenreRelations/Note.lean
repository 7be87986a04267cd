import GenreRelations.Text.Fold
import GenreRelations.Text.Lines
import GenreRelations.Text.LowerCase
import GenreRelations.Text.Order
import GenreRelations.Text.Quoted
import GenreRelations.Text.Words

/-!
Notes that list the alternative names of a genre, one a line. The first line says what the note
is, a line may give the long form of a short name, and what a remark in parentheses adds to a name
is left out.
-/

namespace GenreRelations

/-- A note whose first line does not say what it is. -/
structure NoteError where
  note : Text
  deriving DecidableEq, Repr

def NoteError.message (e : NoteError) : Text :=
  "the first line of ".toList ++ e.note.quote ++
    " is neither \"Alternative names:\" nor \"Short for \x7bname\x7d\", so it is ".toList ++
      "improperly formatted".toList

namespace Note

/-- What a line of a note says. -/
inductive Line where
  /-- Names follow. -/
  | header
  /-- The name that a shorter one stands for. -/
  | shortFor (name : Text)
  | other (line : Text)
  deriving DecidableEq, Repr

/-- First lines that announce names in other words than the header. -/
def openings : List Text := ["umbrella term".toList, "variations:".toList]

/-- Where a remark on the name begins. -/
def remarks : List Text := [" (shortened".toList, " (retronym".toList, " (plural".toList]

namespace Line

def ofText (line : Text) : Line :=
  if line.lower = "alternative names:".toList then header
  else if "short for".toList.isPrefixOf line.lower then
    shortFor (Text.unwords (line.words.drop 2))
  else other line

def name? : Line → Option Text
  | header => none
  | shortFor name => some name
  | other line => some (Text.beforeFolded remarks line)

end Line

/-- The lines of a note that are not blank, without the blanks at their ends. -/
def entries (note : Text) : List Text :=
  (note.lines.map Text.trim).filter fun line => !line.isEmpty

/-- The names that a note gives, in increasing order. -/
def names (note : Text) : Except NoteError (List Text) :=
  match (entries note).map Line.ofText with
  | .other line :: rest =>
    if openings.contains line.lower then .ok (Text.sorted (rest.filterMap Line.name?))
    else .error ⟨note⟩
  | lines => .ok (Text.sorted (lines.filterMap Line.name?))

end Note

end GenreRelations
