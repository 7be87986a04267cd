import GenreRelations.Text.Quoted

/-!
Relations between genres and the symbols that write them. A single symbol is an operator; the
doubled symbol is a divider, which binds looser than every operator.
-/

namespace GenreRelations

/-- How two genres relate. -/
inductive Relation where
  | blend
  | derive
  | fuse
  deriving DecidableEq, Repr

namespace Relation

/-- The three relations, in the order in which sets of relations are listed. -/
def all : List Relation := [blend, derive, fuse]

def char : Relation → Char
  | blend => '|'
  | derive => '>'
  | fuse => '~'

def operator (r : Relation) : Text := [r.char]

def divider (r : Relation) : Text := [r.char, r.char]

def ofOperator? (s : Text) : Option Relation := all.find? fun r => r.operator = s

def notOperatorMessage (s : Text) : Text := "not a relation operator: ".toList ++ s.quote

/-- The relation that an operator writes, or what is said about a text that is no operator. -/
def readOperator (s : Text) : Except Text Relation :=
  match ofOperator? s with
  | some r => .ok r
  | none => .error (notOperatorMessage s)

/-- The relations of a list as a set: each one at most once, in the order of `all`. -/
def distinct (rs : List Relation) : List Relation := all.filter fun r => rs.contains r

theorem mem_all (r : Relation) : r ∈ all := by cases r <;> decide

end Relation

/-- A relation as it stands between genre names. -/
inductive Symbol where
  | operator (relation : Relation)
  | divider (relation : Relation)
  deriving DecidableEq, Repr

namespace Symbol

def relation : Symbol → Relation
  | operator r => r
  | divider r => r

def text : Symbol → Text
  | operator r => r.operator
  | divider r => r.divider

def all : List Symbol := Relation.all.flatMap fun r => [operator r, divider r]

/-- The symbol that a word is. A word that only contains a symbol is none. -/
def ofWord? (w : Text) : Option Symbol := all.find? fun s => s.text = w

theorem mem_all (s : Symbol) : s ∈ all := by rcases s with r | r <;> cases r <;> decide

theorem ofWord?_text (s : Symbol) : ofWord? s.text = some s := by
  rcases s with r | r <;> cases r <;> decide

theorem text_of_ofWord? {w : Text} {s : Symbol} (h : ofWord? w = some s) : s.text = w := by
  simpa using List.find?_some h

end Symbol

end GenreRelations
