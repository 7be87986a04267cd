import GenreRelations.Relation

/-!
Why an expression is rejected. Every error carries the text that was being read: the whole
expression, or the inside of the group in which it went wrong.
-/

namespace GenreRelations

/-- What makes an expression empty or malformed. -/
inductive Malformation where
  /-- There is no word in it. -/
  | noGenre
  /-- The parenthesis that opens at this segment of the level is never closed. -/
  | unclosed (segment : Nat)
  /-- A name outside all groups does not close what it opens. -/
  | unbalanced (name : Text)
  /-- Names are not joined by any relation. -/
  | noRelation
  deriving DecidableEq, Repr

namespace Malformation

def reason : Malformation → Text
  | noGenre => "no genre given".toList
  | unclosed i => "unclosed parenthesis at segment ".toList ++ Text.ofNat i
  | unbalanced n => "unbalanced parentheses in ".toList ++ n.quote
  | noRelation => "no relation between genres".toList

end Malformation

/-- Why an expression is rejected, and the text that was being read. -/
inductive ParseError where
  /-- Dividers of two relations occur, the first two kinds being these. -/
  | ambiguousDividers (text : Text) (first second : Relation)
  /-- The segment with this number is a symbol where a name was due, or the reverse. -/
  | misplacedOperator (text : Text) (segment : Nat)
  /-- Operators of several relations stand at one level. -/
  | ambiguousGrouping (text : Text)
  | malformed (text : Text) (why : Malformation)
  deriving DecidableEq, Repr

namespace ParseError

/-- The text that was being read. -/
def text : ParseError → Text
  | ambiguousDividers s _ _ => s
  | misplacedOperator s _ => s
  | ambiguousGrouping s => s
  | malformed s _ => s

def message : ParseError → Text
  | ambiguousDividers s r q =>
    "more than one kind of divider in ".toList ++ s.quote ++ ": ".toList ++ r.divider.quote ++
      " and ".toList ++ q.divider.quote
  | misplacedOperator s i =>
    "misplaced operator at segment ".toList ++ Text.ofNat i ++ " in ".toList ++ s.quote
  | ambiguousGrouping s => "ambiguous grouping of genres in ".toList ++ s.quote
  | malformed s why =>
    "empty or malformed expression ".toList ++ s.quote ++ ": ".toList ++ why.reason

end ParseError

end GenreRelations
