import GenreRelations.CommandLine.Completion
import GenreRelations.Program.Failure
import GenreRelations.Program.Style
import GenreRelations.Tree.Drawing

/-!
What the commands print. Data goes to the standard output and warnings to the error output; a
command that fails may have printed before. Log lines are left out: a log that shares the error
output adds lines of its own to it, by default one at the level of warnings for each record that is
rejected, and more if debug messages were asked for.
-/

namespace GenreRelations

/-- The text of every file that can be read, by its path. -/
abbrev Files := Text → Option Text

def Files.read (files : Files) (kind : FileKind) (path : Text) : Except Failure Text :=
  match files path with
  | none => .error (.unreadable kind path)
  | some content => .ok content

def Files.records (files : Files) (path : Text) : Except Failure (List Record) := do
  match Record.readAll (← files.read .records path) with
  | .error line => throw (.record path line)
  | .ok records => return records

/-- Where settings are looked for. -/
structure Locations where
  user : Option Text
  project : Text
  deriving DecidableEq, Repr

/-- What a command prints, and why it fails if it does. -/
structure Printed where
  stdout : Text := []
  stderr : Text := []
  failure : Option Failure := none
  deriving DecidableEq, Repr

namespace Printed

/-- Only data. -/
def lines (ls : List Text) : Printed := { stdout := Text.unlines ls }

/-- Nothing but a failure. -/
def failed (f : Failure) : Printed := { failure := some f }

/-- What is printed of a result, or the failure in its place. -/
def ofResult {α : Type} (print : α → Printed) : Except Failure α → Printed
  | .error f => failed f
  | .ok x => print x

end Printed

def Tree.inFormat (t : Tree) : Format → Text
  | .tree => t.drawing
  | .json => t.wire
  | .flat => (Json.array (t.flat.map .string)).compact
  | .text => t.canonical

namespace Command

/-- Prints something of the tree of an expression. -/
def printTree (expression : Text) (print : Tree → List Text) : Printed :=
  match Tree.parse expression with
  | .error e => .failed (.expression e)
  | .ok t => .lines (print t)

/-- The lines about one rejected record. -/
def rejection (color : Bool) (f : Catalog.Failure) : List Text :=
  ["  ".toList ++ Style.rejection.apply color ['✗'] ++ " line ".toList ++ Text.ofNat f.line ++
      ": ".toList ++ f.error.message,
    "  ".toList ++ f.subgenre]

/-- What is printed about records that were checked. -/
def printCheck (color : Bool) (file : Text) (r : Catalog.Report) : Printed :=
  let total := r.entries.length + r.failures.length
  if r.isClean then
    .lines [Style.success.apply color ['✓'] ++ ' ' :: Text.ofNat total ++
      " records parsed".toList]
  else
    { stdout := Text.unlines (Style.heading.apply color ("Rejected records in ".toList ++ file) ::
        r.failures.flatMap (rejection color))
      failure := some (.rejected r.failures.length total) }

/-- The warning about a record that is left out. -/
def warning (color : Bool) (file : Text) (f : Catalog.Failure) : Text :=
  Style.warning.apply color "Warning".toList ++ ": ".toList ++ file ++ ':' :: Text.ofNat f.line ++
    ": skipped: ".toList ++ f.error.message

/-- What is printed about records that were cataloged. -/
def printCatalog (color : Bool) (file : Text) (r : Catalog.Report) : Printed where
  stdout := Text.unlines (r.entries.map Catalog.Entry.text)
  stderr := Text.unlines (r.failures.map (warning color file))

def reportOn (s : Settings) (files : Files) (file : Text) : Except Failure Catalog.Report := do
  return Catalog.report s.policy (← files.records file)

def namesIn (files : Files) (file : Text) : Except Failure (List Text) := do
  match Note.names (← files.read .note file) with
  | .error e => throw (.note e)
  | .ok names => return names

/-- The line about one place where settings are looked for. -/
def located (color : Bool) (label place : Text) : Text :=
  Style.label.apply color label ++ ": ".toList ++ place

/-- Carries out a command. -/
def execute (s : Settings) (color : Bool) (places : Locations) (files : Files) :
    Command → Printed
  | parse expression format =>
    printTree expression fun t => [t.inFormat (format.getD s.format)]
  | flatten expression => printTree expression Tree.flat
  | check file => .ofResult (printCheck color file) (reportOn s files file)
  | catalog file => .ofResult (printCatalog color file) (reportOn s files file)
  | aliases file => .ofResult .lines (namesIn files file)
  | showConfig => .lines [s.toml]
  | configPaths =>
    .lines [
      located color "global".toList (places.user.getD "<no config directory>".toList),
      located color "local".toList places.project]
  | completion shell => .lines [shell.completion]

end Command

end GenreRelations
