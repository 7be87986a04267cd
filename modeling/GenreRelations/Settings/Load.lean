import GenreRelations.Settings.Document
import GenreRelations.Settings.Environment

/-!
Loading of settings. The file of the user lies above the defaults, the file of the project above
that of the user, and the environment above all. A file that is there but useless is an error,
whatever the other sources say.
-/

namespace GenreRelations

/-- What is found where a file is looked for. -/
inductive Source where
  | missing
  /-- A directory, say, or a file that holds no text. -/
  | unreadable
  | text (content : Text)
  deriving DecidableEq, Repr

/-- Whose settings a file holds. -/
inductive Scope where
  | user
  | project
  deriving DecidableEq, Repr

/-- Why settings are not loaded. -/
inductive SettingsError where
  | unreadable (scope : Scope)
  /-- The text of the file is no document of settings. -/
  | invalid (scope : Scope)
  deriving DecidableEq, Repr

/-- The layer that a file gives. -/
def Source.layer (scope : Scope) : Source → Except SettingsError Layer
  | missing => .ok {}
  | unreadable => .error (.unreadable scope)
  | text s =>
    match Layer.ofDocument? s with
    | none => .error (.invalid scope)
    | some l => .ok l

/-- The settings that two files and the environment give together. -/
def Settings.load (user project : Source) (env : Environment) : Except SettingsError Settings := do
  let user ← user.layer .user
  let project ← project.layer .project
  return (({} : Settings).overlay user |>.overlay project).overlay env.layer

end GenreRelations
