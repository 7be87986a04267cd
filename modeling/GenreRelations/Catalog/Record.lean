import GenreRelations.Text.Lines
import GenreRelations.Text.Basic

/-!
Records of tracks: one a line, the genre of the track and a tab before the expression of its
subgenre. Blank lines and lines that start with a number sign hold no record.
-/

namespace GenreRelations

/-- What a record file says of one track. -/
structure Record where
  /-- The number of the line, counted from one. -/
  line : Nat
  genre : Option Text
  subgenre : Text
  deriving DecidableEq, Repr

namespace Record

/-- The line holds no record. -/
def isSkipped (line : Text) : Bool :=
  line.trim.isEmpty || line.trim.head? == some '#'

def nonempty? (s : Text) : Option Text := if s.isEmpty then none else some s

/-- The genre and the subgenre on a line, the first tab between them. -/
def columns (line : Text) : Option Text × Text :=
  match line.dropWhile (· != '\t') with
  | [] => (none, line.trim)
  | _ :: subgenre => (nonempty? (Text.trim (line.takeWhile (· != '\t'))), Text.trim subgenre)

/-- The records on lines of which the first has number `n`. Fails with the number of the first
line that gives a genre without subgenre. -/
def readFrom (n : Nat) : List Text → Except Nat (List Record)
  | [] => .ok []
  | line :: lines =>
    if isSkipped line then readFrom (n + 1) lines
    else
      let (genre, subgenre) := columns line
      if subgenre.isEmpty then .error n
      else do
        let records ← readFrom (n + 1) lines
        return ⟨n, genre, subgenre⟩ :: records

/-- The records of a file. -/
def readAll (content : Text) : Except Nat (List Record) := readFrom 1 content.lines

end Record

end GenreRelations
