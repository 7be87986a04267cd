import GenreRelations.Text.Unprintable

/-!
Quoted text, as messages show it: between double quotes, on one line, with every character that
shows nothing of its own written by its code point.
-/

namespace GenreRelations.Text

/-- A code point in hexadecimal, without leading zeros. -/
def hex (n : Nat) : Text := Nat.toDigits 16 n

/-- One character inside quotes. -/
def quoteChar (c : Char) : Text :=
  match c with
  | '"' => ['\\', '"']
  | '\\' => ['\\', '\\']
  | '\t' => ['\\', 't']
  | '\n' => ['\\', 'n']
  | '\r' => ['\\', 'r']
  | '\x00' => ['\\', '0']
  | c => if isUnprintable c then "\\u\x7b".toList ++ hex c.toNat ++ ['}'] else [c]

/-- The text between double quotes. -/
def quote (s : Text) : Text := '"' :: s.flatMap quoteChar ++ ['"']

end GenreRelations.Text
