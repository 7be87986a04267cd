import GenreRelations.Catalog.Qualification
import GenreRelations.Expression.Parse
import GenreRelations.Tree.Walk
import GenreRelations.Tree.Wire

/-!
Cataloging: every record becomes an entry, which holds what is stored with the track, or a failure
that says why its expression is rejected. A report keeps both in the order of the records.
-/

namespace GenreRelations.Catalog

/-- What is stored with a track. -/
structure Entry where
  line : Nat
  /-- The expression as it was parsed. -/
  subgenre : Text
  /-- The wire form of the tree. -/
  nested : Text
  /-- The names and operators in order. -/
  flat : List Text
  names : List Text
  relations : List Relation
  deriving DecidableEq, Repr

/-- A record whose expression is rejected. -/
structure Failure where
  line : Nat
  subgenre : Text
  error : ParseError
  deriving DecidableEq, Repr

/-- What becomes of a record. -/
inductive Outcome where
  | entry (entry : Entry)
  | failure (failure : Failure)
  deriving DecidableEq, Repr

/-- How records are cataloged. -/
structure Policy where
  /-- Expressions are qualified by the genre of their record. -/
  qualify : Bool := true
  /-- Nothing after the first failure is kept. -/
  failFast : Bool := false
  deriving DecidableEq, Repr

/-- The entries and the failures, each in the order of the records. -/
structure Report where
  entries : List Entry
  failures : List Failure
  deriving DecidableEq, Repr

namespace Entry

/-- The entry of an expression that was parsed to a tree. -/
def ofTree (line : Nat) (subgenre : Text) (t : Tree) : Entry where
  line := line
  subgenre := subgenre
  nested := t.wire
  flat := t.flat
  names := t.unordered.names
  relations := t.unordered.relations

def toJson (e : Entry) : Json :=
  .object [
    ("line".toList, .number (.integer e.line)),
    ("subgenre".toList, .string e.subgenre),
    ("subgenresNested".toList, .string e.nested),
    ("subgenresFlat".toList, .array (e.flat.map .string)),
    ("unorderedSubgenres".toList, .array (e.names.map .string)),
    ("unorderedOperators".toList, .array (e.relations.map fun r => .string r.operator))]

/-- The line that shows the entry. -/
def text (e : Entry) : Text := e.toJson.compact

end Entry

namespace Outcome

def ofRecord (r : Record) : Outcome :=
  match Tree.parse r.subgenre with
  | .ok t => entry (.ofTree r.line r.subgenre t)
  | .error e => failure ⟨r.line, r.subgenre, e⟩

def entry? : Outcome → Option Entry
  | entry e => some e
  | failure _ => none

def failure? : Outcome → Option Failure
  | entry _ => none
  | failure f => some f

/-- The outcomes up to and including the first failure. -/
def untilFailure : List Outcome → List Outcome
  | [] => []
  | entry e :: os => entry e :: untilFailure os
  | failure f :: _ => [failure f]

end Outcome

def outcomes (qualifying : Bool) (rs : List Record) : List Outcome :=
  rs.map fun r => .ofRecord (if qualifying then r.qualified else r)

namespace Report

def ofOutcomes (os : List Outcome) : Report :=
  ⟨os.filterMap Outcome.entry?, os.filterMap Outcome.failure?⟩

/-- No record failed. -/
def isClean (r : Report) : Bool := r.failures.isEmpty

end Report

def report (p : Policy) (rs : List Record) : Report :=
  let os := outcomes p.qualify rs
  .ofOutcomes (if p.failFast then Outcome.untilFailure os else os)

end GenreRelations.Catalog
