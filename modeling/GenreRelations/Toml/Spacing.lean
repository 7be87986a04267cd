import GenreRelations.Text.Basic

/-!
What stands between the parts of a TOML document: spaces and tabs, comments, and line breaks. A
carriage return only counts in front of a line feed.
-/

namespace GenreRelations.Toml

def isSpace (c : Char) : Bool := c == ' ' || c == '\t'

/-- The characters that may stand in a comment: all but the controls, and tabs. -/
def isPlain (c : Char) : Bool := c == '\t' || (0x20 ≤ c.toNat && c.toNat != 0x7F)

def skipSpace (s : Text) : Text := s.dropWhile isSpace

/-- The text after a line break. -/
def lineBreak? : Text → Option Text
  | '\n' :: s => some s
  | '\r' :: '\n' :: s => some s
  | _ => none

/-- The text after a comment, if it starts with one. -/
def skipComment : Text → Text
  | '#' :: s => s.dropWhile isPlain
  | s => s

/-- The next line, if nothing but a comment is left on this one. -/
def nextLine? (s : Text) : Option Text :=
  match skipComment (skipSpace s) with
  | [] => some []
  | r => lineBreak? r

/-- Passes up to so many line breaks, and spaces and comments in front of them. -/
def skipLines : Nat → Text → Text
  | 0, s => s
  | n + 1, s =>
    match lineBreak? (skipComment (skipSpace s)) with
    | some r => skipLines n r
    | none => skipSpace s

/-- Passes spaces and line breaks. -/
def skipBreaks : Text → Text
  | ' ' :: s => skipBreaks s
  | '\t' :: s => skipBreaks s
  | '\n' :: s => skipBreaks s
  | '\r' :: '\n' :: s => skipBreaks s
  | s => s

end GenreRelations.Toml
