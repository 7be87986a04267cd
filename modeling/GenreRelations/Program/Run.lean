import GenreRelations.CommandLine.Help
import GenreRelations.CommandLine.Read
import GenreRelations.Program.Host

/-!
A run of the program: the command line is read first, then the settings are loaded, and then the
command is carried out. Every failure is printed and decides the exit code.
-/

namespace GenreRelations

/-- The path of a settings file. -/
def Locations.file (l : Locations) : Scope → Text
  | .user => l.user.getD []
  | .project => l.project

/-- What is said about settings that are not loaded. The remarks behind the path are fixed; they
stand where the system says why it cannot read the file, or the reader of documents what is wrong
with its text. -/
def SettingsError.message (l : Locations) : SettingsError → Text
  | unreadable scope =>
    "config error: read ".toList ++ l.file scope ++ ": this is no text file".toList
  | invalid scope =>
    "config error: parse ".toList ++ l.file scope ++ ": these are no settings".toList

/-- The exit code for settings that are not loaded. -/
def SettingsError.exitCode : Nat := 78

/-- The result of a run. -/
structure Run where
  exitCode : Nat
  stdout : Text
  stderr : Text
  deriving DecidableEq, Repr

namespace Run

/-- The line that tells of a failure. -/
def errorLine (color : Bool) (message : Text) : Text :=
  Style.error.apply color "error".toList ++ ": ".toList ++ message ++ ['\n']

/-- The run of a command, given what it printed. -/
def ofPrinted (color : Bool) (p : Printed) : Run :=
  match p.failure with
  | none => ⟨0, p.stdout, p.stderr⟩
  | some f => ⟨f.exitCode, p.stdout, p.stderr ++ errorLine color f.message⟩

end Run

namespace Program

/-- The run of a command line that names no command to carry out. -/
def explain (u : Usage) : Run :=
  match u with
  | .help => ⟨u.exitCode, CommandLine.helpPage, []⟩
  | .version name => ⟨u.exitCode, name ++ ' ' :: CommandLine.version ++ ['\n'], []⟩
  | _ => ⟨u.exitCode, [], Run.errorLine false u.message ++ '\n' :: CommandLine.helpPage⟩

/-- What is said to those who ask for more debug messages than there are. -/
def debugRemark (debug : Nat) : Text :=
  if 3 < debug then "Don't be crazy, max is -d -d -d\n".toList else []

/-- Runs the program with the words of its command line. -/
def run (h : Host) (ws : List Text) : Run :=
  match CommandLine.read ws with
  | .error u => explain u
  | .ok i =>
    let r : Run := match h.settings with
      | .error e =>
        ⟨SettingsError.exitCode, [], Run.errorLine h.allowsColor (e.message h.locations)⟩
      | .ok s =>
        let color := h.allowsColor && !i.noColor && s.color
        .ofPrinted color (i.command.execute s color h.locations h.files)
    { r with stderr := debugRemark i.debug ++ r.stderr }

/-- The files that a run may read. -/
def filesRead (l : Locations) (ws : List Text) : List Text :=
  match CommandLine.read ws with
  | .error _ => []
  | .ok i => l.user.toList ++ l.project :: i.command.file?.toList

end Program

end GenreRelations
