import GenreRelations.Program.Execute
import GenreRelations.Program.Path
import GenreRelations.Settings.Load

/-!
Files that are held in memory: a plain set of files under their paths, and a tree of directories in
which paths lead from place to place as they do on a disk.
-/

namespace GenreRelations

/-- The files of a list, the later one of two under the same path. -/
def Files.ofList (files : List (Text × Text)) : Files := fun path =>
  (files.reverse.find? fun f => Path.same f.1 path).map (·.2)

/-- Directories and what is in them. A place is the list of the names that lead to it. -/
structure FileTree where
  /-- The working directory, at which relative paths start. -/
  start : List Text
  /-- Directories besides those that files lie in. -/
  directories : List (List Text)
  files : List (List Text × Source)

namespace FileTree

def isDirectory (t : FileTree) (place : List Text) : Bool :=
  (t.start :: t.directories).any place.isPrefixOf ||
    t.files.any fun f => place.isPrefixOf f.1.dropLast

/-- The place to which steps lead. All but the last have to lead to directories. -/
def walk (t : FileTree) (place : List Text) : List Text → Option (List Text)
  | [] => some place
  | step :: steps =>
    if !t.isDirectory place then none
    else if step = ['.'] then t.walk place steps
    else if step = ['.', '.'] then t.walk place.dropLast steps
    else t.walk (place ++ [step]) steps

def at? (t : FileTree) (place : List Text) : Source :=
  match t.files.find? fun f => f.1 == place with
  | some f => f.2
  | none => if t.isDirectory place then .unreadable else .missing

/-- The most bytes that a path may have. -/
def longestPath : Nat := 4095

/-- What is found under a path, which is neither empty nor too long. A slash at its end leads to a
directory. -/
def source (t : FileTree) (path : Text) : Source :=
  if path.isEmpty || longestPath < (String.ofList path).utf8ByteSize then .missing
  else
    let steps := Path.parts path ++ (if path.getLast? = some '/' then [['.']] else [])
    match t.walk (if Path.isAbsolute path then [] else t.start) steps with
    | none => .missing
    | some place => t.at? place

end FileTree

end GenreRelations
