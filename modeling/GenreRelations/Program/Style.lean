import GenreRelations.Text.Basic

/-!
Colours of messages on a terminal. A styled text opens with the codes of its style and closes with
a reset, and after a reset inside the text the style is opened again.
-/

namespace GenreRelations

/-- What a coloured part of a message is. -/
inductive Style where
  | error
  | warning
  | success
  | rejection
  | heading
  | label
  deriving DecidableEq, Repr

namespace Style

def reset : Text := "\x1b[0m".toList

def opening : Style → Text
  | error => "\x1b[1;31m".toList
  | warning => "\x1b[33m".toList
  | success => "\x1b[32m".toList
  | rejection => "\x1b[31m".toList
  | heading => "\x1b[1;36m".toList
  | label => "\x1b[32m".toList

/-- The text with the opening behind every reset in it. -/
def reopened (st : Style) : Text → Text
  | '\x1b' :: '[' :: '0' :: 'm' :: s => reset ++ st.opening ++ reopened st s
  | c :: s => c :: reopened st s
  | [] => []

/-- The text in the style, if there are colours at all. -/
def apply (st : Style) (color : Bool) (s : Text) : Text :=
  if color then st.opening ++ st.reopened s ++ reset else s

end Style

end GenreRelations
