import GenreRelations.Settings.Basic

/-!
The commands of the program, the operands they take, and the ways in which a command line is
turned down.
-/

namespace GenreRelations

/-- A shell for which completions are written. -/
inductive Shell where
  | bash
  | elvish
  | fish
  | powershell
  | zsh
  deriving DecidableEq, Repr

namespace Shell

def all : List Shell := [bash, elvish, fish, powershell, zsh]

def name : Shell → Text
  | bash => "bash".toList
  | elvish => "elvish".toList
  | fish => "fish".toList
  | powershell => "powershell".toList
  | zsh => "zsh".toList

def ofName? (s : Text) : Option Shell := all.find? fun shell => shell.name = s

end Shell

/-- What the program is told to do. -/
inductive Command where
  /-- Print the structure of an expression. -/
  | parse (expression : Text) (format : Option Format)
  /-- Print the names and operators of an expression. -/
  | flatten (expression : Text)
  /-- Report the records that are rejected. -/
  | check (file : Text)
  /-- Print the entries of records. -/
  | catalog (file : Text)
  /-- Print the names in a note. -/
  | aliases (file : Text)
  /-- Print the settings. -/
  | showConfig
  /-- Print where settings are looked for. -/
  | configPaths
  /-- Print completions for a shell. -/
  | completion (shell : Shell)
  deriving DecidableEq, Repr

def Command.file? : Command → Option Text
  | check file => some file
  | catalog file => some file
  | aliases file => some file
  | _ => none

/-- A command, and what flags say about its messages. -/
structure Invocation where
  command : Command
  /-- How often debug messages were asked for. -/
  debug : Nat
  /-- Colours were turned off. -/
  noColor : Bool
  deriving DecidableEq, Repr

/-- Why a command line runs no command. -/
inductive Usage where
  /-- Help was asked for. -/
  | help
  /-- The version was asked for, of the command with this full name. -/
  | version (name : Text)
  /-- Nothing was asked for. -/
  | nothing
  /-- There are flags, but no command. -/
  | missingCommand
  | unknownCommand
  | missingOperand
  /-- A word that starts with a dash is no option, or there is an operand too many. -/
  | unknownArgument
  /-- The value of an option or operand is missing or none of those allowed. -/
  | invalidValue
  /-- An option stands twice. -/
  | repeated
  /-- A flag is given a value. -/
  | unexpectedValue
  deriving DecidableEq, Repr

/-- Asking for help or the version is no mistake. -/
def Usage.exitCode : Usage → Nat
  | help => 0
  | version _ => 0
  | _ => 2

/-- A command before its operand and options are known. -/
inductive Action where
  | parse
  | flatten
  | check
  | catalog
  | aliases
  | showConfig
  | configPaths
  | completion
  deriving DecidableEq, Repr

namespace Action

def takesOperand : Action → Bool
  | showConfig => false
  | configPaths => false
  | _ => true

def takesFormat : Action → Bool
  | parse => true
  | _ => false

/-- The words that name the action, behind the name of the program. -/
def words : Action → List Text
  | parse => ["parse".toList]
  | flatten => ["flatten".toList]
  | check => ["check".toList]
  | catalog => ["catalog".toList]
  | aliases => ["aliases".toList]
  | showConfig => ["config".toList, "show".toList]
  | configPaths => ["config".toList, "path".toList]
  | completion => ["completion".toList]

/-- The name of a file, which is not empty. -/
def fileName? (w : Text) : Option Text := if w.isEmpty then none else some w

/-- The command with an operand, if that is a valid one. -/
def command? (a : Action) (operand : Text) (format : Option Format) : Option Command :=
  match a with
  | parse => some (.parse operand format)
  | flatten => some (.flatten operand)
  | check => (fileName? operand).map .check
  | catalog => (fileName? operand).map .catalog
  | aliases => (fileName? operand).map .aliases
  | showConfig => some .showConfig
  | configPaths => some .configPaths
  | completion => (Shell.ofName? operand).map .completion

def accepts (a : Action) (operand : Text) : Bool := (a.command? operand none).isSome

end Action

end GenreRelations
