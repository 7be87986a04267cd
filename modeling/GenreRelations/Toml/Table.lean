import GenreRelations.Text.Basic

/-!
Values and tables of TOML documents. Tables grow by headers and by keys of several parts, and a
table that one of the two has defined is closed to the other.
-/

namespace GenreRelations.Toml

/-- How a table came to be. -/
inductive Origin where
  /-- By a header of its own, or by braces. -/
  | opened
  /-- By the header of a table inside it. -/
  | implied
  /-- By a key of several parts. -/
  | dotted
  deriving DecidableEq, Repr

mutual

/-- A value. Of numbers and of dates and times only the kind is kept. -/
inductive Value where
  | string (text : Text)
  | boolean (value : Bool)
  | number
  | moment
  | array (items : List Value)
  /-- A table in braces, to which nothing can be added. -/
  | table (table : Table)

/-- What stands under a key of a table. -/
inductive Item where
  | value (value : Value)
  | table (table : Table)
  /-- Tables under one header in double brackets; there is at least one. -/
  | tables (tables : List Table)

/-- Keys, each at most once, and what stands under them. -/
inductive Table where
  | mk (origin : Origin) (members : List (Text × Item))

end

namespace Table

def origin : Table → Origin
  | mk o _ => o

def members : Table → List (Text × Item)
  | mk _ ms => ms

/-- A table without keys. -/
def empty (o : Origin) : Table := mk o []

/-- What stands under a key. -/
def find? (t : Table) (key : Text) : Option Item :=
  (t.members.find? fun m => m.1 == key).map (·.2)

/-- Puts an item under a key, in the place of the one that is there already. -/
def put (t : Table) (key : Text) (item : Item) : Table :=
  let others := t.members.filter fun m => m.1 != key
  mk t.origin (others ++ [(key, item)])

/-- Changes the table at the end of a path. Missing tables on the way are made, and of tables in
double brackets the last one is meant. Keys of several parts only go through tables that no header
has opened. -/
def updateAt (made : Origin) (f : Table → Option Table) : (path : List Text) → Table → Option Table
  | [], t => f t
  | key :: path, t =>
    match t.find? key with
    | none => (updateAt made f path (empty made)).map fun u => t.put key (.table u)
    | some (.value _) => none
    | some (.table u) =>
      if made = .dotted ∧ u.origin = .opened then none
      else (updateAt made f path u).map fun v => t.put key (.table v)
    | some (.tables us) =>
      match us.getLast? with
      | none => none
      | some u => (updateAt made f path u).map fun v => t.put key (.tables (us.dropLast ++ [v]))

/-- Gives a value to a key of which the parts before the last lead to the table. The parts lead to
a table made by such keys exactly if there are any. -/
def assign (path : List Text) (key : Text) (value : Value) : Table → Option Table :=
  updateAt .dotted
    (fun t =>
      if decide (t.origin = .dotted) = path.isEmpty then none
      else
        match t.find? key with
        | none => some (t.put key (.value value))
        | some _ => none)
    path

/-- Opens the table under a header; it may be implied already. -/
def openTable (path : List Text) (key : Text) : Table → Option Table :=
  updateAt .implied
    (fun t =>
      match t.find? key with
      | none => some (t.put key (.table (empty .opened)))
      | some (.table (mk .implied ms)) => some (t.put key (.table (mk .opened ms)))
      | some _ => none)
    path

/-- Adds a table under a header in double brackets. -/
def addTable (path : List Text) (key : Text) : Table → Option Table :=
  updateAt .implied
    (fun t =>
      match t.find? key with
      | none => some (t.put key (.tables [empty .opened]))
      | some (.tables us) => some (t.put key (.tables (us ++ [empty .opened])))
      | some _ => none)
    path

/-- The table in braces that holds the pairs of a path, a key and a value. -/
def ofPairs? (pairs : List (List Text × Text × Value)) : Option Table :=
  pairs.foldlM (fun t (path, key, value) => t.assign path key value) (empty .opened)

end Table

end GenreRelations.Toml
