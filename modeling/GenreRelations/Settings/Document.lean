import GenreRelations.Settings.Basic
import GenreRelations.Toml.Read

/-!
Settings in a TOML document: the tables `output` and `catalog`. Other keys and tables say nothing,
but a known key with a value of the wrong kind makes the document useless. A table may also be
written as the array of its values.
-/

namespace GenreRelations.Layer

open Toml

/-- The items under two keys of a section. An array gives them in this order. -/
def fields? (first second : Text) : Item → Option (Option Item × Option Item)
  | .table t => some (t.find? first, t.find? second)
  | .value (.table t) => some (t.find? first, t.find? second)
  | .value (.array vs) => some (vs[0]?.map .value, vs[1]?.map .value)
  | .tables ts => some (ts[0]?.map .table, ts[1]?.map .table)
  | .value .moment => some (none, none)
  | .value _ => none

def boolean? : Item → Option Bool
  | .value (.boolean b) => some b
  | _ => none

/-- The item holds nothing. -/
def isVoid : Item → Bool
  | .value (.array vs) => vs.isEmpty
  | .value (.table t) => t.members.isEmpty
  | .value _ => false
  | .table t => t.members.isEmpty
  | .tables ts => ts.isEmpty

/-- The format that the only key of a table names; the key holds nothing. -/
def onlyKey? (t : Table) : Option Format :=
  match t.members with
  | [(key, item)] => if isVoid item then Format.ofName? key else none
  | _ => none

def format? : Item → Option Format
  | .value (.string s) => Format.ofName? s
  | .value (.table t) => onlyKey? t
  | .table t => onlyKey? t
  | _ => none

/-- What a key gives: nothing if it is absent, and a failure if its item is of the wrong kind. -/
def read? {α : Type} (decode? : Item → Option α) : Option Item → Option (Option α)
  | none => some none
  | some item => (decode? item).map some

/-- The items under two keys of a section that may be absent. -/
def section? (root : Table) (name first second : Text) : Option (Option Item × Option Item) :=
  match root.find? name with
  | none => some (none, none)
  | some item => fields? first second item

def ofTable? (root : Table) : Option Layer := do
  let (format, color) ← section? root "output".toList "format".toList "color".toList
  let (qualify, failFast) ← section? root "catalog".toList "qualify".toList "fail_fast".toList
  return {
    format := ← read? format? format
    color := ← read? boolean? color
    qualify := ← read? boolean? qualify
    failFast := ← read? boolean? failFast }

/-- The layer that a document gives; none if the text is no document of settings. -/
def ofDocument? (s : Text) : Option Layer := Toml.read? s >>= ofTable?

end GenreRelations.Layer
