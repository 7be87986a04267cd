import GenreRelations.Program.Execute
import GenreRelations.Program.Path
import GenreRelations.Settings.Load

/-!
The machine that the program runs on, as far as it matters: where the settings of the user and of
the project are looked for, whether messages may be coloured, and what is found under a path.
-/

namespace GenreRelations

/-- What the program sees of the machine that it runs on. -/
structure Host where
  environment : Environment
  /-- The working directory. -/
  directory : Text
  /-- The output is shown on a terminal. -/
  isTerminal : Bool
  /-- What is found under a path. -/
  source : Text → Source

namespace Host

/-- The directory that holds the settings of users. The variable for it only counts if it is an
absolute path. -/
def configHome? (h : Host) : Option Text :=
  match (h.environment.find? "XDG_CONFIG_HOME".toList).filter Path.isAbsolute with
  | some d => some d
  | none =>
    match h.environment.find? "HOME".toList with
    | none => none
    | some home => if home.isEmpty then none else some (Path.join home ".config".toList)

def locations (h : Host) : Locations where
  user := h.configHome?.map fun d =>
    Path.join (Path.join d "genreguide".toList) "genreguide.toml".toList
  project := Path.join h.directory ".genreguide.toml".toList

/-- The value of a variable that switches something: anything but a zero is on. -/
def switch? (h : Host) (name : Text) : Option Bool :=
  (h.environment.find? name).map (· != ['0'])

/-- Messages may be coloured. Variables that force colours or forbid them win over the terminal,
and forcing wins over forbidding. -/
def allowsColor (h : Host) : Bool :=
  if h.switch? "CLICOLOR_FORCE".toList = some true then true
  else if (h.switch? "NO_COLOR".toList).isSome then false
  else (h.switch? "CLICOLOR".toList).getD true && h.isTerminal

/-- The text of a file that can be read. -/
def files (h : Host) : Files := fun path =>
  match h.source path with
  | .text content => some content
  | _ => none

def settings (h : Host) : Except SettingsError Settings :=
  Settings.load ((h.locations.user.map h.source).getD .missing) (h.source h.locations.project)
    h.environment

end Host

end GenreRelations
