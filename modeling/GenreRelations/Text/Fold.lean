import GenreRelations.Text.Basic

/-!
Search for Latin letters in whatever case. Two characters beyond ASCII count as Latin letters: the
long s and the Kelvin sign.
-/

namespace GenreRelations.Text

/-- The small letter that a character counts as. -/
def foldChar (c : Char) : Char :=
  if 'A' ≤ c ∧ c ≤ 'Z' then Char.ofNat (c.toNat + 32)
  else if c = '\u017f' then 's'
  else if c = '\u212a' then 'k'
  else c

/-- The text starts with the mark, whatever the case of its letters. -/
def startsWithFolded : (mark s : Text) → Bool
  | [], _ => true
  | _ :: _, [] => false
  | m :: mark, c :: s => foldChar c == m && startsWithFolded mark s

/-- The text before the first place where one of the marks stands, or all of it. -/
def beforeFolded (marks : List Text) : Text → Text
  | [] => []
  | c :: s =>
    if marks.any fun mark => startsWithFolded mark (c :: s) then []
    else c :: beforeFolded marks s

end GenreRelations.Text
