import GenreRelations.Text.Basic

/-!
Paths of files. Two paths are the same if their steps are: repeated slashes, a slash at the end and
a dot on the way make no difference, but a dot at the start of a relative path is a step.
-/

namespace GenreRelations.Path

def isAbsolute (p : Text) : Bool := p.head? == some '/'

/-- The path of a name within a directory. -/
def join (directory name : Text) : Text :=
  if directory.isEmpty || directory.getLast? == some '/' then directory ++ name
  else directory ++ '/' :: name

/-- The names and dots between slashes. -/
def parts (p : Text) : List Text := (p.splitOnP (· == '/')).filter fun part => !part.isEmpty

def steps (p : Text) : List Text :=
  match isAbsolute p, parts p with
  | false, ['.'] :: rest => ['.'] :: rest.filter (· != ['.'])
  | _, all => all.filter (· != ['.'])

def same (p q : Text) : Bool := isAbsolute p == isAbsolute q && steps p == steps q

end GenreRelations.Path
