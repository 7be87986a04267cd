import GenreRelations.Proofs.Layering
import GenreRelations.Proofs.Statements

/-!
Settings as documents. The text that writes settings is read as the layer that gives them all:
`Layer.ofDocument?_toml`. So from the file of the project they are loaded back, whatever the file of
the user gives: `Settings.load_saved`.
-/

namespace GenreRelations

theorem Format.isPlainText_name (f : Format) : Toml.IsPlainText f.name := by
  cases f <;> decide

theorem Format.name_ne_nil (f : Format) : f.name ≠ [] := by
  cases f <;> decide

/-- The layer that gives all settings. -/
def Layer.full (s : Settings) : Layer :=
  ⟨some s.format, some s.color, some s.qualify, some s.failFast⟩

namespace Settings

theorem overlay_full (s t : Settings) : s.overlay (.full t) = t := rfl

theorem overlay_empty (s : Settings) : s.overlay {} = s := rfl

open Toml (header assignment quoted)

theorem writesValue_boolText (b : Bool) : Toml.WritesValue (boolText b) (.boolean b) := by
  cases b with
  | true => exact ⟨fun _ => rfl, fun _ _ => by simp [boolText, Toml.value?]⟩
  | false => exact ⟨fun _ => rfl, fun _ _ => by simp [boolText, Toml.value?]⟩

/-- The lines of the document that gives all settings. -/
def tomlLines (s : Settings) : List Text :=
  [header "output".toList, assignment "format".toList (quoted s.format.name),
    assignment "color".toList (boolText s.color), [], header "catalog".toList,
    assignment "qualify".toList (boolText s.qualify),
    assignment "fail_fast".toList (boolText s.failFast)]

theorem toml_eq_unlines (s : Settings) : s.toml = Text.unlines s.tomlLines := by
  have output : "[output]\nformat = \"".toList =
      header "output".toList ++ '\n' :: ("format".toList ++ " = ".toList ++ ['"']) := by decide
  have color : "\"\ncolor = ".toList = '"' :: '\n' :: ("color".toList ++ " = ".toList) := by decide
  have catalog : "\n\n[catalog]\nqualify = ".toList = '\n' :: '\n' ::
      (header "catalog".toList ++ '\n' :: ("qualify".toList ++ " = ".toList)) := by decide
  have failFast : "\nfail_fast = ".toList = '\n' :: ("fail_fast".toList ++ " = ".toList) := by
    decide
  unfold toml
  rw [output, color, catalog, failFast]
  simp only [tomlLines, Text.unlines, assignment, quoted, List.flatMap_cons, List.flatMap_nil,
    List.append_assoc, List.cons_append, List.nil_append, List.append_nil]

/-- The table that the document writes. -/
def tomlTable (s : Settings) : Toml.Table :=
  .mk .opened
    [("output".toList, .table (.mk .opened [("format".toList, .value (.string s.format.name)),
      ("color".toList, .value (.boolean s.color))])),
      ("catalog".toList, .table (.mk .opened [("qualify".toList, .value (.boolean s.qualify)),
        ("fail_fast".toList, .value (.boolean s.failFast))]))]

theorem statements_toml (s : Settings) :
    Toml.statements (s.toml.length + 1) s.toml =
      some [.openTable [] "output".toList, .assign [] "format".toList (.string s.format.name),
        .assign [] "color".toList (.boolean s.color), .openTable [] "catalog".toList,
        .assign [] "qualify".toList (.boolean s.qualify),
        .assign [] "fail_fast".toList (.boolean s.failFast)] := by
  have format := Toml.writesValue_quoted s.format.isPlainText_name s.format.name_ne_nil
  have means : List.Forall₂ Toml.Means s.tomlLines _ :=
    .cons (Toml.means_header (by decide)) <|
    .cons (Toml.means_assignment (by decide) format) <|
    .cons (Toml.means_assignment (by decide) (writesValue_boolText s.color)) <|
    .cons .blank <|
    .cons (Toml.means_header (by decide)) <|
    .cons (Toml.means_assignment (by decide) (writesValue_boolText s.qualify)) <|
    .cons (Toml.means_assignment (by decide) (writesValue_boolText s.failFast)) .nil
  rw [toml_eq_unlines]
  exact Toml.statements_unlines means (Nat.lt_succ_of_le (Text.length_le_length_unlines _))

theorem read?_toml (s : Settings) : Toml.read? s.toml = some s.tomlTable := by
  have unmarked : Toml.withoutMark s.toml = s.toml := by
    rw [toml_eq_unlines]
    rfl
  unfold Toml.read?
  simp only [unmarked, statements_toml, Option.bind_eq_bind, Option.bind_some]
  rfl

end Settings

/-- The document that gives all settings is read as the layer that does. -/
theorem Layer.ofDocument?_toml (s : Settings) : ofDocument? s.toml = some (.full s) := by
  rw [ofDocument?, Settings.read?_toml]
  have output : section? s.tomlTable "output".toList "format".toList "color".toList =
      some (some (.value (.string s.format.name)), some (.value (.boolean s.color))) := rfl
  have catalog : section? s.tomlTable "catalog".toList "qualify".toList "fail_fast".toList =
      some (some (.value (.boolean s.qualify)), some (.value (.boolean s.failFast))) := rfl
  rw [Option.bind_eq_bind, Option.bind_some, ofTable?, output, catalog]
  simp only [Option.bind_eq_bind, Option.bind_some, read?, format?, boolean?, Format.ofName?_name]
  rfl

/-- Settings that were saved are loaded again from the file of the project, whatever the file of the
user gives, if no variable has the name of a setting. -/
theorem Settings.load_saved (s : Settings) {user : Source} {u : Layer} {env : Environment}
    (gives : user.Gives u) (silent : ∀ v ∈ env, Environment.mayGive v.1 = false) :
    load user (.text s.toml) env = .ok s := by
  rw [load_of_gives gives (.text (Layer.ofDocument?_toml s)), Environment.layer_of_silent silent,
    List.foldl_cons, List.foldl_cons, List.foldl_cons, overlay_full, overlay_empty, List.foldl_nil]

theorem Settings.load_saved_over :
    Source.Gives (.text "output = [\"json\"]\n[catalog]\nqualify = false\n".toList)
      { format := some .json, qualify := some false } ∧
    load (.text "output = [\"json\"]\n[catalog]\nqualify = false\n".toList)
      (.text ({ format := .flat, failFast := true } : Settings).toml)
      [("HOME".toList, "/home".toList)] = .ok { format := .flat, failFast := true } := by
  have gives : Source.Gives (.text "output = [\"json\"]\n[catalog]\nqualify = false\n".toList)
      { format := some .json, qualify := some false } := .text (by decide)
  exact ⟨gives, load_saved _ gives (by decide)⟩

end GenreRelations
