import GenreRelations.Json.Number

/-!
Values of JSON documents, and their compact text: no blanks, and only those characters escaped
that have to be.
-/

namespace GenreRelations

inductive Json where
  | null
  | bool (value : Bool)
  | number (value : Json.Number)
  | string (value : Text)
  | array (items : List Json)
  | object (members : List (Text × Json))

namespace Json

/-! ### Compact text -/

/-- The two digits of a number below 256 in base sixteen. -/
def hexByte (n : Nat) : Text := [Nat.digitChar (n / 16), Nat.digitChar (n % 16)]

/-- One character inside a string. -/
def escapeChar (c : Char) : Text :=
  match c with
  | '"' => ['\\', '"']
  | '\\' => ['\\', '\\']
  | '\x08' => ['\\', 'b']
  | '\t' => ['\\', 't']
  | '\n' => ['\\', 'n']
  | '\x0c' => ['\\', 'f']
  | '\r' => ['\\', 'r']
  | c => if c.toNat < 0x20 then '\\' :: 'u' :: '0' :: '0' :: hexByte c.toNat else [c]

def stringText (s : Text) : Text := '"' :: s.flatMap escapeChar ++ ['"']

mutual

/-- The compact text of a value. -/
def compact : Json → Text
  | null => "null".toList
  | bool true => "true".toList
  | bool false => "false".toList
  | number n => n.text
  | string s => stringText s
  | array [] => ['[', ']']
  | array (v :: vs) => '[' :: v.compact ++ itemsText vs
  | object [] => "\x7b\x7d".toList
  | object ((k, v) :: ms) => '\x7b' :: stringText k ++ ':' :: v.compact ++ membersText ms

/-- The items after the first, each behind a comma, and the end of the array. -/
def itemsText : List Json → Text
  | [] => [']']
  | v :: vs => ',' :: v.compact ++ itemsText vs

/-- The members after the first, each behind a comma, and the end of the object. -/
def membersText : List (Text × Json) → Text
  | [] => ['\x7d']
  | (k, v) :: ms => ',' :: stringText k ++ ':' :: v.compact ++ membersText ms

end

/-! ### Nesting -/

mutual

/-- The number of arrays and objects around the innermost value. -/
def nesting : Json → Nat
  | array vs => 1 + itemsNesting vs
  | object ms => 1 + membersNesting ms
  | _ => 0

def itemsNesting : List Json → Nat
  | [] => 0
  | v :: vs => max v.nesting (itemsNesting vs)

def membersNesting : List (Text × Json) → Nat
  | [] => 0
  | (_, v) :: ms => max v.nesting (membersNesting ms)

end

end Json

end GenreRelations
