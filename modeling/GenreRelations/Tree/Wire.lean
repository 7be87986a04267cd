import GenreRelations.Json.Read
import GenreRelations.Tree.Basic

/-!
The wire form of a tree: nested JSON arrays in which names and operators are plain strings, as in
`["Space Bass", "|", ["Drum & Bass", ">", "Brostep"]]`. A lone genre is an array of one item.
Reading takes a string that is an operator for a symbol, an array of one item for that item, and
an array in which names and one operator take turns for a chain.
-/

namespace GenreRelations

/-! ### Writing -/

namespace Tree

mutual

/-- The wire form of a tree inside another: a name is a plain string. -/
def nested : Tree → Json
  | leaf n => .string n
  | pair l r t => .array [l.nested, .string r.operator, t.nested]
  | chain _ [] => .array []
  | chain r (t :: ts) => .array (t.nested :: nestedOperands r ts)
  | sequence es => .array (nestedElements es)

/-- The operands after the first, each behind its operator. -/
def nestedOperands (r : Relation) : List Tree → List Json
  | [] => []
  | t :: ts => .string r.operator :: t.nested :: nestedOperands r ts

def nestedElements : List Element → List Json
  | [] => []
  | .tree t :: es => t.nested :: nestedElements es
  | .symbol r :: es => .string r.operator :: nestedElements es

end

def toJson : Tree → Json
  | leaf n => .array [.string n]
  | t => t.nested

def wire (t : Tree) : Text := t.toJson.compact

end Tree

/-! ### Reading -/

/-- Why a document is no wire form. -/
inductive WireError where
  /-- The text is no JSON document. -/
  | notJson
  | emptyArray
  /-- A value that is neither an array nor, inside an array, a string. -/
  | unexpectedValue (value : Json)
  /-- An array that holds nothing but one operator. -/
  | misplacedSymbol (relation : Relation)

namespace WireError

def message : WireError → Text
  | notJson => "invalid JSON".toList
  | emptyArray => "empty array in nested genres".toList
  | unexpectedValue v => "unexpected value in nested genres: ".toList ++ v.compact
  | misplacedSymbol r =>
    "relation symbol ".toList ++ r.operator.quote ++ " where a genre was expected".toList

end WireError

namespace Tree

/-- Symbols of one relation and trees take turns, a symbol first and a tree last. -/
def continues (r : Relation) : List Element → Bool
  | [] => true
  | .symbol q :: .tree _ :: es => q = r && continues r es
  | _ => false

/-- The relation of elements that make a chain. -/
def chainRelation? : List Element → Option Relation
  | .tree _ :: .symbol r :: es => if continues r (.symbol r :: es) then some r else none
  | _ => none

def treesOf : List Element → List Tree
  | [] => []
  | .tree t :: es => t :: treesOf es
  | .symbol _ :: es => treesOf es

/-- The tree of the items of one array. -/
def ofElements : List Element → Except WireError Tree
  | [] => .error .emptyArray
  | [.tree t] => .ok t
  | [.symbol r] => .error (.misplacedSymbol r)
  | es =>
    match chainRelation? es with
    | some r => .ok (.chain r (treesOf es))
    | none => .ok (.sequence es)

mutual

/-- The element that an item of an array stands for. -/
def elementOfJson : Json → Except WireError Element
  | .string s =>
    match Relation.ofOperator? s with
    | some r => .ok (.symbol r)
    | none => .ok (.tree (.leaf s))
  | .array vs => do return .tree (← ofElements (← elementsOfJson vs))
  | v => .error (.unexpectedValue v)

/-- The elements of the items of an array; the first fault counts. -/
def elementsOfJson : List Json → Except WireError (List Element)
  | [] => .ok []
  | v :: vs => do
    let e ← elementOfJson v
    let es ← elementsOfJson vs
    return e :: es

end

/-- The tree of a JSON value, which has to be an array. -/
def ofJson : Json → Except WireError Tree
  | .array vs => elementsOfJson vs >>= ofElements
  | v => .error (.unexpectedValue v)

/-- The tree that a text writes in wire form. -/
def ofWire (s : Text) : Except WireError Tree :=
  match Json.read? s with
  | none => .error .notJson
  | some v => ofJson v

end Tree

end GenreRelations
