import GenreRelations.Settings.Environment
import Mathlib.Data.List.Basic

/-!
Variables of the environment. The path of a variable starts with a piece of its name, and a value
only goes below the first step of its path; so a variable of which the name does not begin as that
of a setting makes no difference: `Environment.layer_filter_mayGive`. A setting is what the last
variable for it says: `Environment.setting?_of_last`.
-/

namespace GenreRelations.Environment

/-- The name of a variable begins as the names for one of the two groups of settings do. -/
def mayGive (name : Text) : Bool :=
  "genreguide_output".toList.isPrefixOf name.lower ||
    "genreguide_catalog".toList.isPrefixOf name.lower

/-! ### The first step of a path -/

theorem exists_path (s : Text) : ∃ name steps, path s = .key name :: steps ∧ name <+: s := by
  unfold path steps?
  cases first : s.takeWhile isKeyChar with
  | nil => exact ⟨s, [], rfl, List.prefix_rfl⟩
  | cons c cs =>
    have start : c :: cs <+: s := first ▸ List.takeWhile_prefix _
    cases moreSteps? s.length (s.dropWhile isKeyChar) with
    | none => exact ⟨s, [], rfl, List.prefix_rfl⟩
    | some steps => exact ⟨c :: cs, steps, rfl, start⟩

/-- What starts a name without a point in it stands there before doubled low lines are points. -/
theorem prefix_of_prefix_pointed {w s : Text} (pointFree : '.' ∉ w) (start : w <+: pointed s) :
    w <+: s := by
  fun_induction pointed s generalizing w with
  | case1 s ih =>
    cases w with
    | nil => exact List.nil_prefix
    | cons c w =>
      obtain ⟨rfl, -⟩ := List.cons_prefix_cons.mp start
      simp at pointFree
  | case2 c s _ ih =>
    cases w with
    | nil => exact List.nil_prefix
    | cons d w =>
      obtain ⟨rfl, start⟩ := List.cons_prefix_cons.mp start
      have rest : '.' ∉ w := fun member => pointFree (List.mem_cons_of_mem _ member)
      exact (List.prefix_cons_inj d).mpr (ih rest ((List.prefix_cons_inj d).mp start))
  | case3 => exact start

/-- The first step of the path of a setting is a key, and it stands in the name of the variable if
there is no point in it. -/
theorem exists_key_of_settingPath? {variableName : Text} {path : List Step}
    (reads : settingPath? variableName = some path) : ∃ name steps, path = .key name :: steps ∧
      ('.' ∉ name → "genreguide_".toList ++ name <+: variableName.lower) := by
  simp only [settingPath?, Option.ite_none_right_eq_some, Option.some.injEq] at reads
  obtain ⟨start, rfl⟩ := reads
  obtain ⟨rest, lower⟩ := List.isPrefixOf_iff_prefix.mp start
  rw [← lower, List.drop_left]
  obtain ⟨name, steps, path, begins⟩ := exists_path (pointed rest)
  exact ⟨name, steps, path, fun pointFree =>
    (List.prefix_append_right_inj _).mpr (prefix_of_prefix_pointed pointFree begins)⟩

/-! ### What variables put together say -/

/-- A value that is put below a key changes nothing under other keys, and what it does there only
depends on what is there. -/
theorem Entry.find?_put (value name key : Text) (steps : List Step) (e : Entry) :
    (e.put value (.key name :: steps)).find? key =
      if name = key then some (put value steps ((e.find? name).getD items)) else e.find? key := by
  by_cases same : name = key
  · subst same
    rw [if_pos rfl]
    cases e with
    | table ms =>
      have replaced : (ms.filter fun m => m.1 != name).find? (fun m => m.1 == name) = none := by
        simp [List.find?_eq_none]
      simp [put, find?, List.find?_append, replaced]
    | _ => simp [put, find?]
  · rw [if_neg same]
    cases e with
    | table ms =>
      have kept : (ms.filter fun m => m.1 != name).find? (fun m => m.1 == key) =
          ms.find? fun m => m.1 == key := by
        rw [List.find?_filter]
        congr 1
        funext m
        by_cases here : m.1 = key
        · simp [here, Ne.symm same]
        · simp [here]
      simp [put, find?, List.find?_append, kept, same]
    | _ => simp [put, find?, same]

/-- Both entries hold the same in the two groups of settings. -/
def Entry.Alike (e f : Entry) : Prop :=
  ∀ group ∈ ["output".toList, "catalog".toList], e.find? group = f.find? group

/-- The entry with what one variable says. -/
def Entry.add (e : Entry) (v : Text × Text) : Entry :=
  match settingPath? v.1 with
  | none => e
  | some path => e.put v.2 path

theorem entry_eq_foldl (env : Environment) : env.entry = env.foldl Entry.add (.table []) := rfl

theorem entry_concat (env : Environment) (v : Text × Text) :
    entry (env ++ [v]) = env.entry.add v := by
  rw [entry_eq_foldl, entry_eq_foldl, List.foldl_append]
  rfl

theorem Entry.Alike.add {e f : Entry} (alike : e.Alike f) (v : Text × Text) :
    (e.add v).Alike (f.add v) := by
  unfold Entry.add
  cases reads : settingPath? v.1 with
  | none => exact alike
  | some path =>
    obtain ⟨name, steps, rfl, -⟩ := exists_key_of_settingPath? reads
    intro group isIn
    rw [find?_put, find?_put]
    by_cases here : name = group
    · subst here
      rw [alike name isIn]
    · rw [if_neg here, if_neg here, alike group isIn]

theorem Entry.alike_add {e : Entry} {v : Text × Text} (silent : mayGive v.1 = false) :
    e.Alike (e.add v) := by
  unfold Entry.add
  cases reads : settingPath? v.1 with
  | none => exact fun _ _ => rfl
  | some path =>
    obtain ⟨name, steps, rfl, named⟩ := exists_key_of_settingPath? reads
    intro group isIn
    rw [find?_put, if_neg]
    rintro rfl
    rcases List.mem_pair.mp isIn with rfl | rfl
    · have start := List.isPrefixOf_iff_prefix.mpr (named (by decide))
      exact Bool.false_ne_true (silent.symm.trans (Bool.or_eq_true_iff.mpr (.inl start)))
    · have start := List.isPrefixOf_iff_prefix.mpr (named (by decide))
      exact Bool.false_ne_true (silent.symm.trans (Bool.or_eq_true_iff.mpr (.inr start)))

/-- Variables without the names of settings may be left out. -/
theorem alike_foldl_filter (env : Environment) {e f : Entry} (alike : e.Alike f) :
    ((env.filter fun v => mayGive v.1).foldl Entry.add e).Alike (env.foldl Entry.add f) := by
  induction env generalizing e f with
  | nil => exact alike
  | cons v env ih =>
    cases named : mayGive v.1 with
    | true =>
      rw [List.filter_cons, if_pos named, List.foldl_cons, List.foldl_cons]
      exact ih (alike.add v)
    | false =>
      -- what the variable puts elsewhere stays, so from here on the entries are alike, not equal
      rw [List.filter_cons, if_neg (by simp [named]), List.foldl_cons]
      exact ih fun group isIn => (alike group isIn).trans (Entry.alike_add named group isIn)

/-- Only variables with the names of settings give settings. -/
theorem layer_filter_mayGive (env : Environment) :
    layer (env.filter fun v => mayGive v.1) = env.layer := by
  have alike := alike_foldl_filter env (e := .table []) fun _ _ => rfl
  have output := alike "output".toList (by simp)
  have catalog := alike "catalog".toList (by simp)
  rw [← entry_eq_foldl, ← entry_eq_foldl] at output catalog
  simp only [layer, setting?, output, catalog]

theorem layer_of_silent {env : Environment} (silent : ∀ v ∈ env, mayGive v.1 = false) :
    env.layer = {} := by
  have none : (env.filter fun v => mayGive v.1) = [] :=
    List.filter_eq_nil_iff.mpr fun v member => by simp [silent v member]
  rw [← layer_filter_mayGive, none]
  rfl

/-! ### Usable values -/

namespace Entry

/-- The words that switch a setting on, or off. -/
def switchWords (b : Bool) : List Text := if b then yesWords else noWords

theorem boolean?_eq_some_iff {e : Entry} {b : Bool} : e.boolean? = some b ↔
    ∃ value, e = .text value ∧ value.lower ∈ switchWords b := by
  have apart : ∀ w ∈ noWords, w ∉ yesWords := by decide
  cases e with
  | text value =>
    by_cases yes : value.lower ∈ yesWords
    · have no : value.lower ∉ noWords := fun no => apart _ no yes
      cases b <;> simp [boolean?, switchWords, yes, no]
    · cases b <;> simp [boolean?, switchWords, yes]
  | table ms => simp [boolean?]
  | items => simp [boolean?]

theorem boolean?_text_iff {value : Text} {b : Bool} :
    boolean? (.text value) = some b ↔ value.lower ∈ switchWords b := by
  simp [boolean?_eq_some_iff]

theorem format?_eq_some_iff {e : Entry} {f : Format} : e.format? = some f ↔
    (∃ value, e = .text value ∧ value.lower = f.name) ∨
      ∃ key member, e = .table [(key, member)] ∧ Text.lower key = f.name := by
  fun_cases format? e with
  | case1 value => simp [Format.ofName?_eq_some_iff]
  | case2 key member => simp [Format.ofName?_eq_some_iff]
  | case3 _ noText noKey =>
    refine iff_of_false (by simp) ?_
    rintro (⟨value, rfl, -⟩ | ⟨key, member, rfl, -⟩)
    · exact noText value rfl
    · exact noKey key member rfl

theorem format?_text_iff {value : Text} {f : Format} :
    format? (.text value) = some f ↔ value.lower = f.name := by
  simp [format?_eq_some_iff]

end Entry

/-! ### The last variable for a setting -/

/-- A variable with this name is meant for no setting, or for another one than that under a name in
a group. -/
def Spares (group name variableName : Text) : Prop :=
  ∀ path, settingPath? variableName = some path →
    (∃ first steps, path = .key first :: steps ∧ first ≠ group) ∨
    ∃ second steps, path = .key group :: .key second :: steps ∧ second ≠ name

variable {group name : Text}

theorem setting?_concat (env : Environment) {v : Text × Text}
    (meant : settingPath? v.1 = some [.key group, .key name]) :
    setting? (env ++ [v]) group name = some (.text v.2) := by
  rw [setting?, entry_concat, Entry.add, meant]
  simp only [Entry.find?_put, if_pos, Option.bind_eq_bind, Option.bind_some]
  rfl

theorem setting?_concat_of_spares (env : Environment) {v : Text × Text}
    (spares : Spares group name v.1) :
    setting? (env ++ [v]) group name = setting? env group name := by
  rw [setting?, setting?, entry_concat, Entry.add]
  cases reads : settingPath? v.1 with
  | none => rfl
  | some path =>
    rcases spares path reads with ⟨first, steps, rfl, other⟩ | ⟨second, steps, rfl, other⟩
    · simp only [Entry.find?_put, if_neg other]
    · -- the group is there from now on, but under the name it holds what it held
      simp only [Entry.find?_put, if_pos, if_neg other, Option.bind_eq_bind, Option.bind_some]
      cases env.entry.find? group <;> rfl

theorem setting?_append_of_spares (env : Environment) {after : Environment}
    (spares : ∀ w ∈ after, Spares group name w.1) :
    setting? (env ++ after) group name = setting? env group name := by
  induction after generalizing env with
  | nil => rw [List.append_nil]
  | cons w after ih =>
    obtain ⟨first, later⟩ := List.forall_mem_cons.mp spares
    rw [List.append_cons, ih _ later, setting?_concat_of_spares env first]

/-- A setting is what the last variable for it says. -/
theorem setting?_of_last (before : Environment) {after : Environment} {v : Text × Text}
    (meant : settingPath? v.1 = some [.key group, .key name])
    (spares : ∀ w ∈ after, Spares group name w.1) :
    setting? (before ++ v :: after) group name = some (.text v.2) := by
  rw [List.append_cons, setting?_append_of_spares _ spares, setting?_concat before meant]

end GenreRelations.Environment
