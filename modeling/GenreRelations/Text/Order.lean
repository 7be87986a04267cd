import GenreRelations.Text.Basic

/-!
Sets of texts as lists in increasing order of code points, without repetition.
-/

namespace GenreRelations.Text

/-- Puts a text into its place of an increasing list; one that is there already is not repeated. -/
def insertSorted (s : Text) : List Text → List Text
  | [] => [s]
  | t :: ts => if s < t then s :: t :: ts else if s = t then t :: ts else t :: insertSorted s ts

/-- The distinct texts of a list in increasing order. -/
def sorted (ts : List Text) : List Text := ts.foldr insertSorted []

end GenreRelations.Text
