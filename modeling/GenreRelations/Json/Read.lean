import GenreRelations.Json.Token
import GenreRelations.Text.Order

/-!
Reading a JSON document. The reader takes one token after the other and keeps the open arrays and
objects, innermost first. Arrays and objects nest 127 deep at most, and of two members with one
key the later one counts.
-/

namespace GenreRelations

namespace Json

/-- An array or object that is not closed yet. -/
inductive Frame where
  /-- An array with its items so far, the last one first. -/
  | array (items : List Json)
  | object (members : List (Text × Json))
  /-- An object in which the value of a key is due. -/
  | member (members : List (Text × Json)) (key : Text)

/-- What may come next. -/
inductive Due where
  | value
  /-- The first item of an array, or its end. -/
  | item
  /-- The first key of an object, or its end. -/
  | firstKey
  | key
  | colon
  /-- A comma, or the end of the innermost array or object. -/
  | separator
  deriving DecidableEq, Repr

/-- How far a document is read. -/
inductive Progress where
  | due (due : Due) (stack : List Frame)
  | done (value : Json)

namespace Progress

/-- The deepest nesting of arrays and objects. -/
def deepest : Nat := 127

/-- Puts a member in the order of keys; one with the same key is replaced. -/
def insertMember (k : Text) (v : Json) : List (Text × Json) → List (Text × Json)
  | [] => [(k, v)]
  | (l, w) :: ms =>
    if k < l then (k, v) :: (l, w) :: ms
    else if k = l then (k, v) :: ms
    else (l, w) :: insertMember k v ms

/-- Opens an array or object. -/
def enter (frame : Frame) (next : Due) (stack : List Frame) : Option Progress :=
  if stack.length < deepest then some (due next (frame :: stack)) else none

/-- Puts a finished value into the innermost array or object. -/
def complete (v : Json) : List Frame → Option Progress
  | [] => some (done v)
  | .array vs :: stack => some (due .separator (.array (v :: vs) :: stack))
  | .member ms k :: stack => some (due .separator (.object (insertMember k v ms) :: stack))
  | .object _ :: _ => none

/-- Takes a token where a value is due. -/
def takeValue (stack : List Frame) : Token → Option Progress
  | .openArray => enter (.array []) .item stack
  | .openObject => enter (.object []) .firstKey stack
  | .string s => complete (.string s) stack
  | .scalar v => complete v stack
  | _ => none

def takeKey : List Frame → Token → Option Progress
  | .object ms :: stack, .string k => some (due .colon (.member ms k :: stack))
  | _, _ => none

/-- Takes the token that closes the innermost array or object. -/
def close : List Frame → Token → Option Progress
  | .array vs :: stack, .closeArray => complete (.array vs.reverse) stack
  | .object ms :: stack, .closeObject => complete (.object ms) stack
  | _, _ => none

def takeSeparator : List Frame → Token → Option Progress
  | .array vs :: stack, .comma => some (due .value (.array vs :: stack))
  | .object ms :: stack, .comma => some (due .key (.object ms :: stack))
  | stack, t => close stack t

def step : Progress → Token → Option Progress
  | done _, _ => none
  | due .value stack, t => takeValue stack t
  | due .item stack, .closeArray => close stack .closeArray
  | due .item stack, t => takeValue stack t
  | due .firstKey stack, .closeObject => close stack .closeObject
  | due .firstKey stack, t => takeKey stack t
  | due .key stack, t => takeKey stack t
  | due .colon stack, .colon => some (due .value stack)
  | due .colon _, _ => none
  | due .separator stack, t => takeSeparator stack t

/-- The value, once the document is read to its end. -/
def value? : Progress → Option Json
  | done v => some v
  | due _ _ => none

end Progress

/-- The value that a document writes. -/
def read? (s : Text) : Option Json := do
  (← (← Token.all? s).foldlM Progress.step (.due .value [])).value?

end Json

end GenreRelations
