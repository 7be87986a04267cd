import GenreRelations.Text.Basic

/-!
Lines of a text. A line ends at a line feed, and a carriage return right before that line feed
belongs to the ending. A carriage return elsewhere belongs to its line.
-/

namespace GenreRelations.Text

/-- The lines of a text; a text that ends with a line feed has no empty line after it. -/
def lines : Text → List Text
  | [] => []
  | '\n' :: s => [] :: lines s
  | '\r' :: '\n' :: s => [] :: lines s
  | c :: s =>
    match lines s with
    | [] => [[c]]
    | l :: ls => (c :: l) :: ls

/-- The lines, each closed by a line feed. -/
def unlines (ls : List Text) : Text := ls.flatMap fun l => l ++ ['\n']

end GenreRelations.Text
