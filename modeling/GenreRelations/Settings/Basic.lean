import GenreRelations.Catalog.Report

/-!
Settings, and layers of them. A layer gives some of the settings, and a layer above it wins where
both give one.
-/

namespace GenreRelations

/-- How a parsed expression is printed. -/
inductive Format where
  | tree
  /-- The wire form. -/
  | json
  /-- The names and operators in order. -/
  | flat
  /-- The canonical expression. -/
  | text
  deriving DecidableEq, Repr

namespace Format

def all : List Format := [tree, json, flat, text]

def name : Format → Text
  | tree => "tree".toList
  | json => "json".toList
  | flat => "flat".toList
  | text => "text".toList

def ofName? (s : Text) : Option Format := all.find? fun f => f.name = s

theorem ofName?_name (f : Format) : ofName? f.name = some f := by
  cases f <;> decide

theorem ofName?_eq_some_iff {s : Text} {f : Format} : ofName? s = some f ↔ s = f.name := by
  constructor
  · intro found
    simpa [eq_comm] using List.find?_some found
  · rintro rfl
    exact ofName?_name f

end Format

structure Settings where
  format : Format := .tree
  /-- Messages are coloured. -/
  color : Bool := true
  /-- Expressions are qualified before they are cataloged. -/
  qualify : Bool := true
  /-- Cataloging stops at the first failure. -/
  failFast : Bool := false
  deriving DecidableEq, Repr

/-- The settings that one source gives. -/
structure Layer where
  format : Option Format := none
  color : Option Bool := none
  qualify : Option Bool := none
  failFast : Option Bool := none
  deriving DecidableEq, Repr

namespace Settings

/-- The settings with those of a layer in their place. -/
def overlay (s : Settings) (l : Layer) : Settings where
  format := l.format.getD s.format
  color := l.color.getD s.color
  qualify := l.qualify.getD s.qualify
  failFast := l.failFast.getD s.failFast

/-- How records are cataloged under the settings. -/
def policy (s : Settings) : Catalog.Policy := ⟨s.qualify, s.failFast⟩

def boolText (b : Bool) : Text := if b then "true".toList else "false".toList

/-- The document that gives all settings. -/
def toml (s : Settings) : Text :=
  "[output]\nformat = \"".toList ++ s.format.name ++ "\"\ncolor = ".toList ++ boolText s.color ++
    "\n\n[catalog]\nqualify = ".toList ++ boolText s.qualify ++
      "\nfail_fast = ".toList ++ boolText s.failFast ++ ['\n']

end Settings

end GenreRelations
