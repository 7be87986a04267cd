import GenreRelations.Program.Run
import GenreRelations.Proofs.Variables

/-!
Settings key by key. A file that is there and useless is an error, the file of the user first; and
else every key has the value of the highest layer that gives it, whatever the layers say about other
keys: `Settings.load_layered`. In the environment that is what the last variable for the key says, if
its value makes sense: `Settings.load_of_variable`.
-/

namespace GenreRelations

namespace Settings

/-- What can be set. -/
inductive Key where
  | format
  | color
  | qualify
  | failFast
  deriving DecidableEq, Repr

/-- The type of the values of a key. -/
def Key.Value : Key → Type
  | format => Format
  | color => Bool
  | qualify => Bool
  | failFast => Bool

def get (s : Settings) : (k : Key) → k.Value
  | .format => s.format
  | .color => s.color
  | .qualify => s.qualify
  | .failFast => s.failFast

/-- The group of settings that a key belongs to. -/
def Key.group : Key → Text
  | format => "output".toList
  | color => "output".toList
  | qualify => "catalog".toList
  | failFast => "catalog".toList

/-- The name of a key in its group. -/
def Key.name : Key → Text
  | format => "format".toList
  | color => "color".toList
  | qualify => "qualify".toList
  | failFast => "fail_fast".toList

theorem ext_get {s t : Settings} (same : ∀ k, s.get k = t.get k) : s = t := by
  obtain ⟨f, c, q, ff⟩ := s
  obtain ⟨f', c', q', ff'⟩ := t
  obtain rfl : f = f' := same .format
  obtain rfl : c = c' := same .color
  obtain rfl : q = q' := same .qualify
  obtain rfl : ff = ff' := same .failFast
  rfl

end Settings

namespace Layer

open Settings (Key)

def get (l : Layer) : (k : Key) → Option k.Value
  | .format => l.format
  | .color => l.color
  | .qualify => l.qualify
  | .failFast => l.failFast

/-- The value that the first layer to give the key gives it. -/
def first? (ls : List Layer) (k : Key) : Option k.Value := ls.findSome? fun l => l.get k

end Layer

/-! ### Overlays -/

namespace Settings

theorem get_overlay (s : Settings) (l : Layer) (k : Key) :
    (s.overlay l).get k = (l.get k).getD (s.get k) := by
  cases k <;> rfl

/-- The topmost layer is the last one that is laid over the settings. -/
theorem get_foldl_overlay (s : Settings) (ls : List Layer) (k : Key) :
    (ls.foldl overlay s).get k = (Layer.first? ls.reverse k).getD (s.get k) := by
  induction ls generalizing s with
  | nil => rfl
  | cons l ls ih =>
    rw [List.foldl_cons, ih, get_overlay, List.reverse_cons, Layer.first?, Layer.first?,
      List.findSome?_append]
    cases List.findSome? (fun l => l.get k) ls.reverse with
    | some v => rfl
    | none => cases given : l.get k <;> simp [given]

end Settings

/-! ### Sources -/

namespace Source

/-- The file is missing, or its text is a document that gives the layer. -/
inductive Gives : Source → Layer → Prop
  | missing : Gives .missing {}
  | text {s : Text} {l : Layer} (document : Layer.ofDocument? s = some l) : Gives (.text s) l

/-- The file is there, but cannot be read or is no document of settings. -/
inductive Fails (scope : Scope) : Source → SettingsError → Prop
  | unreadable : Fails scope .unreadable (.unreadable scope)
  | invalid {s : Text} (document : Layer.ofDocument? s = none) :
      Fails scope (.text s) (.invalid scope)

theorem Gives.layer {src : Source} {l : Layer} (gives : src.Gives l) (scope : Scope) :
    src.layer scope = .ok l := by
  cases gives with
  | missing => rfl
  | text document => rw [Source.layer, document]

theorem Fails.layer {scope : Scope} {src : Source} {e : SettingsError}
    (fails : src.Fails scope e) : src.layer scope = .error e := by
  cases fails with
  | unreadable => rfl
  | invalid document => rw [Source.layer, document]

/-- The message of an error shows the path of the file. -/
theorem Fails.names {scope : Scope} {src : Source} {e : SettingsError} (fails : src.Fails scope e)
    (places : Locations) : places.file scope <:+: e.message places := by
  cases fails with
  | unreadable => exact ⟨_, _, rfl⟩
  | invalid => exact ⟨_, _, rfl⟩

theorem Fails.names_user {src : Source} {e : SettingsError} (fails : src.Fails .user e)
    {places : Locations} {path : Text} (lies : places.user = some path) :
    path <:+: e.message places := by
  have file : places.file .user = path := by rw [Locations.file, lies, Option.getD_some]
  exact file ▸ fails.names places

theorem gives_or_fails (src : Source) (scope : Scope) :
    (∃ l, src.Gives l) ∨ ∃ e, src.Fails scope e := by
  cases src with
  | missing => exact .inl ⟨_, .missing⟩
  | unreadable => exact .inr ⟨_, .unreadable⟩
  | text s =>
    cases document : Layer.ofDocument? s with
    | some l => exact .inl ⟨l, .text document⟩
    | none => exact .inr ⟨_, .invalid document⟩

end Source

/-! ### Unknown keys and tables -/

namespace Layer

open Toml (Item Table)

/-- The table of a section; one that is absent has no keys. -/
def sectionTable? : Option Item → Option Table
  | none => some (.empty .implied)
  | some (.table t) => some t
  | some (.value (.table t)) => some t
  | some _ => none

/-- The sections are the same, or tables that only differ in keys other than the two. -/
def SameSection (first second : Text) (a b : Option Item) : Prop :=
  a = b ∨ ∃ t u, sectionTable? a = some t ∧ sectionTable? b = some u ∧
    t.find? first = u.find? first ∧ t.find? second = u.find? second

/-- The documents are the same but for unknown tables, and unknown keys in the known tables. -/
def SameKnown (t u : Table) : Prop :=
  SameSection "format".toList "color".toList (t.find? "output".toList)
    (u.find? "output".toList) ∧
  SameSection "qualify".toList "fail_fast".toList (t.find? "catalog".toList)
    (u.find? "catalog".toList)

theorem section?_of_sectionTable? {root t : Table} {name : Text} (first second : Text)
    (table : sectionTable? (root.find? name) = some t) :
    Layer.section? root name first second = some (t.find? first, t.find? second) := by
  unfold section?
  generalize root.find? name = item at table
  fun_cases sectionTable? item with
  | case1 => obtain rfl := Option.some.inj table; rfl
  | case2 u => obtain rfl := Option.some.inj table; rfl
  | case3 u => obtain rfl := Option.some.inj table; rfl
  | case4 item noTable noInline => simp_all [sectionTable?]

theorem SameSection.section? {t u : Table} {name first second : Text}
    (same : SameSection first second (t.find? name) (u.find? name)) :
    Layer.section? t name first second = Layer.section? u name first second := by
  rcases same with same | ⟨a, b, left, right, sameFirst, sameSecond⟩
  · rw [Layer.section?, Layer.section?, same]
  · rw [section?_of_sectionTable? first second left, section?_of_sectionTable? first second right,
      sameFirst, sameSecond]

theorem SameKnown.ofTable? {t u : Table} (same : SameKnown t u) :
    ofTable? t = ofTable? u := by
  rw [Layer.ofTable?, Layer.ofTable?, same.1.section?, same.2.section?]

theorem ofDocument?_of_sameKnown {s s' : Text} {t u : Table} (read : Toml.read? s = some t)
    (read' : Toml.read? s' = some u) (same : SameKnown t u) : ofDocument? s = ofDocument? s' := by
  rw [ofDocument?, ofDocument?, read, read']
  exact same.ofTable?

end Layer

/-! ### Loads -/

namespace Settings

variable {user project : Source} {env : Environment}

theorem load_of_fails_user {e : SettingsError} (fails : user.Fails .user e) :
    load user project env = .error e := by
  rw [load, fails.layer]
  rfl

theorem load_of_fails_project {u : Layer} {e : SettingsError} (gives : user.Gives u)
    (fails : project.Fails .project e) : load user project env = .error e := by
  rw [load, gives.layer, fails.layer]
  rfl

theorem load_of_gives {u p : Layer} (givesUser : user.Gives u) (givesProject : project.Gives p) :
    load user project env = .ok ([u, p, env.layer].foldl overlay {}) := by
  rw [load, givesUser.layer, givesProject.layer]
  rfl

theorem load_eq_error_iff {e : SettingsError} : load user project env = .error e ↔
    user.Fails .user e ∨ (∃ u, user.Gives u) ∧ project.Fails .project e := by
  constructor
  · intro failed
    rcases user.gives_or_fails .user with ⟨u, givesUser⟩ | ⟨f, fails⟩
    · -- the file of the project only counts once that of the user has given a layer
      rcases project.gives_or_fails .project with ⟨p, givesProject⟩ | ⟨f, fails⟩
      · rw [load_of_gives givesUser givesProject] at failed
        cases failed
      · rw [load_of_fails_project givesUser fails] at failed
        cases failed
        exact .inr ⟨⟨u, givesUser⟩, fails⟩
    · rw [load_of_fails_user fails] at failed
      cases failed
      exact .inl fails
  · rintro (fails | ⟨⟨u, gives⟩, fails⟩)
    · exact load_of_fails_user fails
    · exact load_of_fails_project gives fails

theorem load_congr {user' project' : Source} {env' : Environment}
    (sameUser : user.layer .user = user'.layer .user)
    (sameProject : project.layer .project = project'.layer .project)
    (sameEnv : env.layer = env'.layer) : load user project env = load user' project' env' := by
  rw [load, load, sameUser, sameProject, sameEnv]

theorem get_of_load {u p : Layer} (givesUser : user.Gives u) (givesProject : project.Gives p)
    (env : Environment) : ∃ s, load user project env = .ok s ∧
      ∀ k, s.get k = (Layer.first? [env.layer, p, u] k).getD (({} : Settings).get k) :=
  ⟨_, load_of_gives givesUser givesProject, get_foldl_overlay _ _⟩

/-! ### Variables -/

/-- The value that an entry of the environment gives to a key, if it is one that makes sense. -/
def Key.ofEntry? : (k : Key) → Environment.Entry → Option k.Value
  | format => Environment.Entry.format?
  | color => Environment.Entry.boolean?
  | qualify => Environment.Entry.boolean?
  | failFast => Environment.Entry.boolean?

/-- The words that stand for a value of a key. -/
def Key.words : (k : Key) → k.Value → List Text
  | format, f => [Format.name f]
  | color, b => Environment.Entry.switchWords b
  | qualify, b => Environment.Entry.switchWords b
  | failFast, b => Environment.Entry.switchWords b

/-- The name of the variable for a key, in small letters. -/
def Key.variableName (k : Key) : Text := "genreguide_".toList ++ k.group ++ "__".toList ++ k.name

theorem Key.ofEntry?_text_iff {k : Key} {value : Text} {x : k.Value} :
    k.ofEntry? (.text value) = some x ↔ value.lower ∈ k.words x := by
  cases k with
  | format => exact Environment.Entry.format?_text_iff.trans List.mem_singleton.symm
  | _ => exact Environment.Entry.boolean?_text_iff

theorem Key.settingPath?_of_named {k : Key} {name : Text} (named : name.lower = k.variableName) :
    Environment.settingPath? name = some [.key k.group, .key k.name] := by
  rw [Environment.settingPath?, named]
  cases k <;> decide

theorem get_layer (env : Environment) (k : Key) :
    env.layer.get k = env.setting? k.group k.name >>= k.ofEntry? := by
  cases k <;> rfl

/-- With good files, the last variable for a key sets it, provided that its value is a word for one of
the values of the key. Its name and the word may be written in whatever case. -/
theorem load_of_variable {u p : Layer} (givesUser : user.Gives u) (givesProject : project.Gives p)
    (before : Environment) {after : Environment} {v : Text × Text} {k : Key} {x : k.Value}
    (named : v.1.lower = k.variableName) (usable : v.2.lower ∈ k.words x)
    (spares : ∀ w ∈ after, Environment.Spares k.group k.name w.1) :
    ∃ s, load user project (before ++ v :: after) = .ok s ∧ s.get k = x := by
  obtain ⟨s, loaded, values⟩ := get_of_load givesUser givesProject (before ++ v :: after)
  have given : (before ++ v :: after).layer.get k = some x := by
    rw [get_layer, Environment.setting?_of_last before (Key.settingPath?_of_named named) spares]
    exact Key.ofEntry?_text_iff.mpr usable
  refine ⟨s, loaded, ?_⟩
  rw [values, Layer.first?, List.findSome?_cons, given]
  rfl

/-! ### Layers -/

/-- Loading fails just if a file is there that cannot be read or is no document of settings, with
the error of the file of the user if that is one, and the message shows the path of that file.
Otherwise each key has the value of the first of the environment, the file of the project and the
file of the user that gives it, or its default; so layers that differ in one key only make no
difference at the others. Unknown keys and tables in the files and variables with other names make
no difference at all. -/
theorem load_layered (user project : Source) (env : Environment) :
    (∀ e, load user project env = .error e ↔
      user.Fails .user e ∨ (∃ u, user.Gives u) ∧ project.Fails .project e) ∧
    (∀ (src : Source) e (places : Locations),
      (src.Fails .user e → ∀ path, places.user = some path → path <:+: e.message places) ∧
      (src.Fails .project e → places.project <:+: e.message places)) ∧
    (∀ u p, user.Gives u → project.Gives p → ∃ s, load user project env = .ok s ∧
      ∀ k, s.get k = (Layer.first? [env.layer, p, u] k).getD (({} : Settings).get k)) ∧
    (∀ (user' project' : Source) (env' : Environment) u p u' p' k, user.Gives u →
      project.Gives p → user'.Gives u' → project'.Gives p' →
      (∀ key ≠ k, u.get key = u'.get key ∧ p.get key = p'.get key ∧
        env.layer.get key = env'.layer.get key) →
      ∃ s s', load user project env = .ok s ∧ load user' project' env' = .ok s' ∧
        ∀ key ≠ k, s.get key = s'.get key) ∧
    (∀ s s' t t', Toml.read? s = some t → Toml.read? s' = some t' → Layer.SameKnown t t' →
      load (.text s) project env = load (.text s') project env ∧
      load user (.text s) env = load user (.text s') env) ∧
    load user project (env.filter fun v => Environment.mayGive v.1) = load user project env := by
  refine ⟨fun e => load_eq_error_iff,
    fun src e places => ⟨fun fails path lies => fails.names_user lies,
      fun fails => fails.names places⟩,
    fun u p givesUser givesProject => get_of_load givesUser givesProject env, ?_, ?_, ?_⟩
  · intro user' project' env' u p u' p' k givesUser givesProject givesUser' givesProject' agree
    obtain ⟨s, loaded, values⟩ := get_of_load givesUser givesProject env
    obtain ⟨s', loaded', values'⟩ := get_of_load givesUser' givesProject' env'
    refine ⟨s, s', loaded, loaded', fun key other => ?_⟩
    obtain ⟨sameUser, sameProject, sameEnv⟩ := agree key other
    rw [values, values']
    simp only [Layer.first?, List.findSome?_cons, sameUser, sameProject, sameEnv]
  · intro s s' t t' read read' same
    have layer : ∀ scope, Source.layer scope (.text s) = Source.layer scope (.text s') := by
      intro scope
      rw [Source.layer, Source.layer, Layer.ofDocument?_of_sameKnown read read' same]
    exact ⟨load_congr (layer .user) rfl rfl, load_congr rfl (layer .project) rfl⟩
  · exact load_congr rfl rfl (Environment.layer_filter_mayGive env)

theorem load_layered_files :
    load (.text "[output]\nformat = \"json\"\ncolor = false\n".toList)
      (.text "[catalog]\nfail_fast = true\n".toList)
      [("GENREGUIDE_OUTPUT__FORMAT".toList, "yaml".toList),
        ("genreguide_catalog__qualify".toList, "No".toList)] = .ok ⟨.json, false, false, true⟩ ∧
    load .unreadable (.text "[output".toList) [] = .error (.unreadable .user) ∧
    "/home/genreguide.toml".toList <:+:
      SettingsError.message ⟨some "/home/genreguide.toml".toList, "/work/.genreguide.toml".toList⟩
        (.unreadable .user) ∧
    load .missing (.text "[output".toList) [] = .error (.invalid .project) ∧
    "/work/.genreguide.toml".toList <:+:
      SettingsError.message ⟨some "/home/genreguide.toml".toList, "/work/.genreguide.toml".toList⟩
        (.invalid .project) ∧
    (∃ s s', load .missing (.text "[catalog]\nfail_fast = true\n".toList) [] = .ok s ∧
      load .missing .missing [] = .ok s' ∧ ∀ key ≠ .failFast, s.get key = s'.get key) ∧
    load (.text "[output]\ncolor = false\nwidth = 80\n[window]\n".toList) .missing [] =
      load (.text "[output]\ncolor = false\n".toList) .missing [] := by
  have user : Source.Gives (.text "[output]\nformat = \"json\"\ncolor = false\n".toList)
      { format := some .json, color := some false } := .text (by decide)
  have project : Source.Gives (.text "[catalog]\nfail_fast = true\n".toList)
      { failFast := some true } := .text (by decide)
  have broken : Source.Fails .project (.text "[output".toList) (.invalid .project) :=
    .invalid (by decide)
  have named := (load_layered .missing .missing []).2.1
  refine ⟨?_, ?_, ?_, ?_, ?_, ?_, ?_⟩
  · obtain ⟨s, loaded, value⟩ := (load_layered _ _ [("GENREGUIDE_OUTPUT__FORMAT".toList,
      "yaml".toList), ("genreguide_catalog__qualify".toList, "No".toList)]).2.2.1 _ _ user project
    rw [loaded, Except.ok.injEq]
    exact ext_get fun k => (value k).trans (by cases k <;> rfl)
  · exact ((load_layered _ _ _).1 _).mpr (.inl .unreadable)
  · exact (named .unreadable _ _).1 .unreadable _ rfl
  · exact ((load_layered _ _ _).1 _).mpr (.inr ⟨⟨_, .missing⟩, broken⟩)
  · exact (named _ _ ⟨_, _⟩).2 broken
  · obtain ⟨-, -, -, apart, -⟩ := load_layered .missing
      (.text "[catalog]\nfail_fast = true\n".toList) []
    refine apart _ _ _ _ _ _ _ .failFast .missing project .missing .missing ?_
    intro key other
    cases key with
    | failFast => exact absurd rfl other
    | _ => exact ⟨rfl, rfl, rfl⟩
  · have wide : Toml.read? "[output]\ncolor = false\nwidth = 80\n[window]\n".toList =
        some (.mk .opened [("output".toList, .table (.mk .opened [("color".toList,
          .value (.boolean false)), ("width".toList, .value .number)])),
            ("window".toList, .table (.mk .opened []))]) := by rfl
    have narrow : Toml.read? "[output]\ncolor = false\n".toList =
        some (.mk .opened [("output".toList, .table (.mk .opened [("color".toList,
          .value (.boolean false))]))]) := by rfl
    exact ((load_layered .missing .missing []).2.2.2.2.1 _ _ _ _ wide narrow
      ⟨.inr ⟨_, _, rfl, rfl, rfl, rfl⟩, .inl rfl⟩).1

end Settings

end GenreRelations
