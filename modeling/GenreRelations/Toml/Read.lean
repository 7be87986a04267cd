import GenreRelations.Toml.Moment
import GenreRelations.Toml.Table

/-!
Reading a TOML document. The text is split into statements, one a line, which are then carried out
one after the other on a table that is empty at first. Keys have fewer than eighty parts, and
arrays and tables in braces nest less than eighty deep.
-/

namespace GenreRelations.Toml

/-! ### Keys -/

/-- The characters of a key without quotes. -/
def isBare (c : Char) : Bool := c.isAlphanum || c == '_' || c == '-'

def keyPart? (s : Text) : Option (Text × Text) :=
  match s with
  | '"' :: _ => Quoted.line? s
  | '\'' :: _ => Quoted.line? s
  | _ =>
    let part := s.takeWhile isBare
    if part.isEmpty then none else some (part, s.dropWhile isBare)

/-- The parts of a key, over so many points at most. -/
def keyParts : Nat → Text → Option (List Text × Text)
  | 0, _ => none
  | n + 1, s => do
    let (part, r) ← keyPart? (skipSpace s)
    match skipSpace r with
    | '.' :: r =>
      let (parts, r) ← keyParts n r
      return (part :: parts, r)
    | r => return ([part], r)

/-- A key: the parts before the last one, and the last one. -/
def key? (s : Text) : Option ((List Text × Text) × Text) := do
  let (parts, r) ← keyParts 79 s
  let last ← parts.getLast?
  return ((parts.dropLast, last), r)

/-! ### Values -/

/-- The items of an array, up to its closing bracket. -/
def items (value? : Text → Option (Value × Text)) : Nat → Text → Option (List Value × Text)
  | 0, _ => none
  | n + 1, s =>
    match skipLines s.length s with
    | ']' :: r => some ([], r)
    | s => do
      let (v, r) ← value? s
      match skipLines r.length r with
      | ']' :: r => return ([v], r)
      | ',' :: r =>
        let (vs, r) ← items value? n r
        return (v :: vs, r)
      | _ => none

/-- The value of a key, read behind the key. -/
def assigned? (value? : Text → Option (Value × Text)) (s : Text) : Option (Value × Text) :=
  match s with
  | '=' :: s => value? (skipSpace s)
  | _ => none

/-- The pairs of a table in braces, up to its closing brace. -/
def pairs (value? : Text → Option (Value × Text)) :
    Nat → Text → Option (List (List Text × Text × Value) × Text)
  | 0, _ => none
  | n + 1, s => do
    let ((path, key), r) ← key? s
    let (v, r) ← assigned? value? r
    match skipSpace r with
    | '\x7d' :: r => return ([(path, key, v)], r)
    | ',' :: r =>
      let (ps, r) ← pairs value? n r
      return ((path, key, v) :: ps, r)
    | _ => none

/-- A number, or a date or time. -/
def scalar? (s : Text) : Option (Value × Text) :=
  match Moment.any? s with
  | some r => some (.moment, r)
  | none =>
    match Number.real? s with
    | some r => some (.number, r)
    | none => (Number.integer? s).map fun r => (.number, r)

/-- A value around which so many more arrays or tables in braces may stand. -/
def value? : Nat → Text → Option (Value × Text)
  | depth, s =>
    match s with
    | '"' :: _ => (Quoted.any? s).map fun (text, r) => (.string text, r)
    | '\'' :: _ => (Quoted.any? s).map fun (text, r) => (.string text, r)
    | 't' :: 'r' :: 'u' :: 'e' :: r => some (.boolean true, r)
    | 'f' :: 'a' :: 'l' :: 's' :: 'e' :: r => some (.boolean false, r)
    | '[' :: r =>
      match depth with
      | 0 => none
      | depth + 1 => (items (value? depth) (r.length + 1) r).map fun (vs, r) => (.array vs, r)
    | '\x7b' :: r =>
      match depth with
      | 0 => none
      | depth + 1 =>
        match skipSpace r with
        | '\x7d' :: r => some (.table (.empty .opened), r)
        | r => do
          let (ps, r) ← pairs (value? depth) (r.length + 1) r
          return (.table (← Table.ofPairs? ps), r)
    | s => scalar? s

/-! ### Statements -/

/-- One line of a document that says something. -/
inductive Statement where
  /-- A value for a key of the table that was opened last. -/
  | assign (path : List Text) (key : Text) (value : Value)
  /-- The header of a table. -/
  | openTable (path : List Text) (key : Text)
  /-- The header of one more table among several. -/
  | addTable (path : List Text) (key : Text)

/-- The statement at the start of a text, and the lines after it. -/
def statement? (s : Text) : Option (Statement × Text) :=
  match s with
  | '[' :: '[' :: s => do
    let ((path, key), r) ← key? s
    match r with
    | ']' :: ']' :: r => return (.addTable path key, ← nextLine? r)
    | _ => none
  | '[' :: s => do
    let ((path, key), r) ← key? s
    match r with
    | ']' :: r => return (.openTable path key, ← nextLine? r)
    | _ => none
  | s => do
    let ((path, key), r) ← key? s
    let (v, r) ← assigned? (value? 79) r
    return (.assign path key v, ← nextLine? r)

/-- The statements on up to so many lines. -/
def statements : Nat → Text → Option (List Statement)
  | 0, _ => none
  | n + 1, s =>
    match skipSpace s with
    | [] => some []
    | s =>
      match nextLine? s with
      | some r => statements n r
      | none => do
        let (statement, r) ← statement? s
        return statement :: (← statements n r)

/-- A document as far as it was read: its tables, and where the one opened last is found. -/
structure Document where
  root : Table
  current : List Text

/-- Carries out one statement. -/
def Document.apply (d : Document) : Statement → Option Document
  | .assign path key v =>
    (Table.updateAt .implied (Table.assign path key v) d.current d.root).map fun root =>
      { d with root }
  | .openTable path key => (d.root.openTable path key).map fun root => ⟨root, path ++ [key]⟩
  | .addTable path key => (d.root.addTable path key).map fun root => ⟨root, path ++ [key]⟩

/-- The text without the mark of its byte order. -/
def withoutMark : Text → Text
  | '\ufeff' :: s => s
  | s => s

/-- The table that a document writes; none if the text is no document. -/
def read? (s : Text) : Option Table := do
  let s := withoutMark s
  let statements ← statements (s.length + 1) s
  let d ← statements.foldlM Document.apply ⟨.empty .opened, []⟩
  return d.root

end GenreRelations.Toml
