import GenreRelations.Settings.Basic
import GenreRelations.Text.Integer
import GenreRelations.Text.LowerCase

/-!
Settings in the environment. The name of a variable, in whatever case, is `genreguide_` and the
path of a setting, in which a doubled low line stands for a point. A value that makes no sense for
its setting says nothing.
-/

namespace GenreRelations

/-- The names and values of the environment. -/
abbrev Environment := List (Text × Text)

namespace Environment

/-- The value of the variable with exactly this name. -/
def find? (env : Environment) (name : Text) : Option Text :=
  (List.find? (fun v => v.1 == name) env).map (·.2)

/-! ### Paths -/

inductive Step where
  | key (name : Text)
  /-- A number in brackets. -/
  | item
  deriving DecidableEq, Repr

def isKeyChar (c : Char) : Bool := c.isAlphanum || c == '_' || c == '-' || c == ' '

/-- The characters that a number in brackets may have around it. -/
def isPadding (c : Char) : Bool := c == ' ' || c == '\t'

/-- The text behind a number in brackets, read behind the opening one. The number fits 64 bits. -/
def afterItem? (s : Text) : Option Text := do
  let (negative, s) := match s.dropWhile isPadding with
    | '-' :: r => (true, r)
    | r => (false, r)
  let digits := s.takeWhile Char.isDigit
  guard (!digits.isEmpty && Text.fitsWord negative (Text.natural digits))
  match (s.dropWhile Char.isDigit).dropWhile isPadding with
  | ']' :: r => return r
  | _ => none

/-- The steps after the first, of which there are at most so many. -/
def moreSteps? : Nat → Text → Option (List Step)
  | _, [] => some []
  | n + 1, '.' :: s =>
    match s.takeWhile isKeyChar with
    | [] => none
    | name => (moreSteps? n (s.dropWhile isKeyChar)).map (.key name :: ·)
  | n + 1, '[' :: s => do return .item :: (← moreSteps? n (← afterItem? s))
  | _, _ => none

def steps? (s : Text) : Option (List Step) :=
  match s.takeWhile isKeyChar with
  | [] => none
  | name => (moreSteps? s.length (s.dropWhile isKeyChar)).map (.key name :: ·)

/-- The path that a text writes. One that makes no sense as a path is a single key. -/
def path (s : Text) : List Step := (steps? s).getD [.key s]

/-- Every doubled low line as a point. -/
def pointed : Text → Text
  | '_' :: '_' :: s => '.' :: pointed s
  | c :: s => c :: pointed s
  | [] => []

/-- The path of the setting that a variable is meant for. -/
def settingPath? (name : Text) : Option (List Step) :=
  let start := "genreguide_".toList
  let name := name.lower
  if start.isPrefixOf name then some (path (pointed (name.drop start.length))) else none

/-! ### Values -/

/-- What stands at the end of a path. -/
inductive Entry where
  | text (value : Text)
  | table (members : List (Text × Entry))
  /-- Numbered entries, which no setting has. -/
  | items

namespace Entry

/-- The entry under a key. -/
def find? : Entry → Text → Option Entry
  | table ms, key => (ms.find? fun m => m.1 == key).map (·.2)
  | _, _ => none

/-- The entry with a value put at the end of a path. What is no table on the way becomes one. -/
def put (value : Text) : List Step → Entry → Entry
  | [], _ => text value
  | .item :: _, _ => items
  | .key name :: path, entry =>
    let member := put value path ((entry.find? name).getD items)
    match entry with
    | table ms => table ((ms.filter fun m => m.1 != name) ++ [(name, member)])
    | _ => table [(name, member)]

/-- The words that switch a setting on. -/
def yesWords : List Text := ["1".toList, "true".toList, "on".toList, "yes".toList]

/-- The words that switch a setting off. -/
def noWords : List Text := ["0".toList, "false".toList, "off".toList, "no".toList]

def boolean? : Entry → Option Bool
  | text value =>
    if yesWords.contains value.lower then some true
    else if noWords.contains value.lower then some false
    else none
  | _ => none

/-- A format by its name, or by the only key of a table. -/
def format? : Entry → Option Format
  | text value => Format.ofName? value.lower
  | table [(key, _)] => Format.ofName? (Text.lower key)
  | _ => none

end Entry

/-- What all variables put together say. -/
def entry (env : Environment) : Entry :=
  env.foldl
    (fun e v =>
      match settingPath? v.1 with
      | none => e
      | some path => e.put v.2 path)
    (.table [])

def setting? (env : Environment) (group name : Text) : Option Entry := do
  (← env.entry.find? group).find? name

def layer (env : Environment) : Layer where
  format := env.setting? "output".toList "format".toList >>= Entry.format?
  color := env.setting? "output".toList "color".toList >>= Entry.boolean?
  qualify := env.setting? "catalog".toList "qualify".toList >>= Entry.boolean?
  failFast := env.setting? "catalog".toList "fail_fast".toList >>= Entry.boolean?

end Environment

end GenreRelations
