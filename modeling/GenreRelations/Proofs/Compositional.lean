import GenreRelations.Proofs.Dividers
import GenreRelations.Proofs.Failures

/-!
Dividers and the levels between them. Every level of an expression is also an expression by itself,
and `Tree.parse_levels` says that nothing else decides how the whole is parsed: its tree is made of
the trees of the levels, and its error is that of the first level that fails.
-/

namespace GenreRelations

open Segment (IsLevel join tokenize)

theorem mapM_congr {α β ε : Type} {f g : α → Except ε β} {xs : List α}
    (same : ∀ x ∈ xs, f x = g x) : xs.mapM f = xs.mapM g := by
  induction xs with
  | nil => rfl
  | cons x xs ih =>
    rw [List.mapM_cons, List.mapM_cons, same x List.mem_cons_self,
      ih fun y member => same y (List.mem_cons_of_mem _ member)]

theorem exists_mapM_eq_ok_iff {α β ε : Type} {f : α → Except ε β} {xs : List α} :
    (∃ ys, xs.mapM f = .ok ys) ↔ ∀ x ∈ xs, ∃ y, f x = .ok y := by
  induction xs with
  | nil => simp [pure, Except.pure]
  | cons x xs ih =>
    rw [List.mapM_cons, List.forall_mem_cons, ← ih]
    cases f x with
    | error e => simp [bind, Except.bind]
    | ok y => cases xs.mapM f <;> simp [bind, Except.bind, pure, Except.pure]

/-- The error, with the second text in its place if it carries the first. -/
def ParseError.restate (s t : Text) (e : ParseError) : ParseError :=
  if e.text = s then e.withText t else e

namespace Expression

/-- The segments of an expression between its dividers. -/
def levelsOf (text : Text) : List (List Segment) := (tokenize text).splitOnP Segment.isDivider

/-- What a level is parsed as by itself; its own faults are those of the whole text. -/
def parseAlone (text : Text) (level : List Segment) : Except ParseError Tree :=
  (Tree.parse (join level)).mapError (ParseError.restate (join level) text)

/-! ### A level by itself -/

theorem parseAlone_eq_ok_iff {text : Text} {level : List Segment} {t : Tree} :
    parseAlone text level = .ok t ↔ Tree.parse (join level) = .ok t := by
  rw [parseAlone]
  cases Tree.parse (join level) <;> simp [Except.mapError]

theorem parseAlone_of_error {level : List Segment} {e : ParseError}
    (failed : Tree.parse (join level) = .error e) (text : Text) :
    parseAlone text level = .error (e.restate (join level) text) := by
  rw [parseAlone, failed]
  rfl

theorem parse_of_isName {n : Text} (name : n.IsName) : Tree.parse n = .ok (.leaf n) := by
  have segments := Segment.tokenize_name name
  refine (parse_eq_ok_iff_of_names ?_).mpr ⟨?_, rfl⟩
  · simp [segments]
  · simp [segments]

theorem parse_join {level : List Segment} (isLevel : IsLevel level) :
    Tree.parse (join level) = Tree.parseLevel (join level) level := by
  have segments : tokenize (join level) = level := Segment.tokenize_join isLevel.alternating.proper
  by_cases several : 2 ≤ level.length
  · have whole : Tree.parse (join level) = Tree.parseLevel (join level) (tokenize (join level)) :=
      parse_eq_parseLevel (segments.symm ▸ isLevel) (segments.symm ▸ several)
    rwa [segments] at whole
  · obtain ⟨alternating, -⟩ := isLevel
    cases alternating with
    | cons => simp at several
    | @name n name =>
      have written : join [Segment.name n] = n := Text.unwords_singleton n
      rw [written]
      exact parse_of_isName name

theorem CarriesText.restate {α : Type} {f : Text → Except ParseError α} (carries : CarriesText f)
    (s t : Text) : f t = (f s).mapError (ParseError.restate s t) := by
  have here := carries s t
  rw [here]
  cases read : f s with
  | ok a => rfl
  | error e =>
    have own : e.text = s := carries.text_eq read
    simp only [Except.mapError, ParseError.restate, own, if_true]

/-- The error of a group does not carry a text as heavy as the segments around the group. -/
theorem text_ne_of_group {g ss : List Segment} {text : Text} {e : ParseError}
    (heavy : Segment.weight ss ≤ text.weight) (piece : g <:+: ss) (enclosed : Group.Enclosed g)
    (failed : Tree.parse (Group.inner g) = .error e) : e.text ≠ text := by
  intro same
  have inside : e.text.weight ≤ (Group.inner g).weight := weight_error_le failed
  have group : (Group.inner g).weight + 2 = Segment.weight g := Group.weight_inner enclosed
  have around : Segment.weight g ≤ Segment.weight ss := weight_le_of_piece piece
  rw [same] at inside
  omega

/-- For two texts a level is read as the same, if the first is heavy enough that no group in the
level can be mistaken for it. -/
theorem parseLevel_restate {ss : List Segment} {s : Text} (heavy : Segment.weight ss ≤ s.weight)
    (t : Text) :
    Tree.parseLevel t ss = (Tree.parseLevel s ss).mapError (ParseError.restate s t) := by
  rcases parseLevel_cases ss with carries | ⟨g, e, piece, enclosed, failed, fails⟩
  · exact carries.restate s t
  · have other := text_ne_of_group heavy piece enclosed failed
    rw [fails s, fails t]
    simp only [Except.mapError, ParseError.restate, other, if_false]

/-- A level is read as it is parsed by itself. -/
theorem parseLevel_eq_parseAlone {level : List Segment} (isLevel : IsLevel level) (text : Text) :
    Tree.parseLevel text level = parseAlone text level := by
  rw [parseAlone, parse_join isLevel]
  exact parseLevel_restate (Nat.le_of_eq (Segment.weight_join level).symm) text

/-! ### All levels -/

section

variable {text : Text} {d : Relation} (kind : ∀ r, .symbol (.divider r) ∈ tokenize text ↔ r = d)
  (placed : checkPositions text (tokenize text) = .ok ())

include kind

theorem joined_levelsOf : Segment.joined (.divider d) (levelsOf text) = tokenize text := by
  obtain ⟨sss, parts, nonempty, undivided⟩ := Segment.exists_levels fun r => (kind r).mp
  rw [levelsOf, parts, Segment.splitOnP_joined nonempty undivided]

theorem undivided_of_mem_levelsOf {level : List Segment} (member : level ∈ levelsOf text) :
    ∀ s ∈ level, s.isDivider = false := by
  obtain ⟨sss, parts, nonempty, undivided⟩ := Segment.exists_levels fun r => (kind r).mp
  rw [levelsOf, parts, Segment.splitOnP_joined nonempty undivided] at member
  exact undivided level member

include placed

theorem parse_eq_parseLevels :
    Tree.parse text = ((levelsOf text).mapM (Tree.parseLevel text)) >>= fun trees =>
      .ok (.sequence (joined d (trees.map pairUp))) := by
  have symbol : .symbol (.divider d) ∈ tokenize text := (kind d).mpr rfl
  have divider : dividerOf text (tokenize text) = .ok (some d) := dividerOf_eq_ok_some_iff.mpr kind
  rw [parse_of_symbol symbol, divider, placed]
  rfl

theorem isLevel_of_mem_levelsOf {level : List Segment} (member : level ∈ levelsOf text) :
    IsLevel level := by
  have alternating := (checkPositions_eq_ok_iff (Segment.proper_tokenize text)).mp placed
  rw [← joined_levelsOf kind, Segment.alternating_joined] at alternating
  exact ⟨alternating.2 level member, undivided_of_mem_levelsOf kind member⟩

/-- A text with dividers is parsed from what its levels are parsed as by themselves. -/
theorem parse_eq_levels :
    Tree.parse text = ((levelsOf text).mapM (parseAlone text)) >>= fun trees =>
      .ok (.sequence (joined d (trees.map pairUp))) := by
  have levels : (levelsOf text).mapM (Tree.parseLevel text) =
      (levelsOf text).mapM (parseAlone text) := by
    refine mapM_congr fun level member => ?_
    exact parseLevel_eq_parseAlone (isLevel_of_mem_levelsOf kind placed member) text
  rw [parse_eq_parseLevels kind placed, levels]

theorem parse_of_levels {ts : List Tree}
    (trees : List.Forall₂ (fun level t => Tree.parse (join level) = .ok t) (levelsOf text) ts) :
    Tree.parse text = .ok (.sequence (joined d (ts.map pairUp))) := by
  have read : (levelsOf text).mapM (parseAlone text) = .ok ts :=
    mapM_eq_ok_iff.mpr (trees.imp fun _ _ here => parseAlone_eq_ok_iff.mpr here)
  rw [parse_eq_levels kind placed, read]
  rfl

theorem exists_parse_iff_levels :
    (∃ t, Tree.parse text = .ok t) ↔
      ∀ level ∈ levelsOf text, ∃ t, Tree.parse (join level) = .ok t := by
  have each := @exists_mapM_eq_ok_iff _ _ _ (parseAlone text) (levelsOf text)
  simp only [parseAlone_eq_ok_iff] at each
  rw [parse_eq_levels kind placed, ← each]
  cases (levelsOf text).mapM (parseAlone text) <;> simp [bind, Except.bind]

theorem parse_error_of_levels {front back : List (List Segment)} {level : List Segment}
    {e : ParseError} (levels : levelsOf text = front ++ level :: back)
    (before : ∀ earlier ∈ front, ∃ t, Tree.parse (join earlier) = .ok t)
    (failed : Tree.parse (join level) = .error e) :
    Tree.parse text = .error (e.restate (join level) text) := by
  have fails : (levelsOf text).mapM (parseAlone text) =
      .error (e.restate (join level) text) := by
    refine mapM_eq_error_iff.mpr ⟨front, level, back, levels, fun earlier member => ?_, ?_⟩
    · exact (before earlier member).imp fun _ here => parseAlone_eq_ok_iff.mpr here
    · exact parseAlone_of_error failed text
  rw [parse_eq_levels kind placed, fails]
  rfl

end

end Expression

namespace Tree

open Expression

/-- An expression with one kind of divider is parsed if each of its levels is by itself. Its tree is
the sequence of their trees, and its error is that of the first level that fails, which carries the
whole text if it carried the text of the level. -/
theorem parse_levels {text : Text} {d : Relation}
    (kind : ∀ r, .symbol (.divider r) ∈ tokenize text ↔ r = d)
    (placed : checkPositions text (tokenize text) = .ok ()) :
    ((∃ t, parse text = .ok t) ↔ ∀ level ∈ levelsOf text, ∃ t, parse (join level) = .ok t) ∧
    (∀ ts, List.Forall₂ (fun level t => parse (join level) = .ok t) (levelsOf text) ts →
      parse text = .ok (.sequence (joined d (ts.map pairUp)))) ∧
    ∀ front level back e, levelsOf text = front ++ level :: back →
      (∀ earlier ∈ front, ∃ t, parse (join earlier) = .ok t) → parse (join level) = .error e →
      (e.text = join level → parse text = .error (e.withText text)) ∧
      (e.text ≠ join level → parse text = .error e ∧
        ('(' :: e.text ++ [')']) <:+: join level) := by
  refine ⟨exists_parse_iff_levels kind placed, fun ts => parse_of_levels kind placed, ?_⟩
  intro front level back e levels before failed
  have fails := parse_error_of_levels kind placed levels before failed
  refine ⟨fun own => ?_, fun other => ⟨?_, ?_⟩⟩
  · rwa [ParseError.restate, if_pos own] at fails
  · rwa [ParseError.restate, if_neg other] at fails
  · have member : level ∈ levelsOf text := by simp [levels]
    have isLevel := isLevel_of_mem_levelsOf kind placed member
    have located := (enclosed_text_of_failure failed).resolve_left other
    rwa [Segment.tokenize_join isLevel.alternating.proper] at located

theorem parse_levels_blend :
    parse "A | B || C".toList = .ok (.sequence [.tree (.pair (.leaf ['A']) .blend (.leaf ['B'])),
      .symbol .blend, .tree (.leaf ['C'])]) ∧
    parse "A || A | B > C || A > B ~ C".toList =
      .error (.ambiguousGrouping "A || A | B > C || A > B ~ C".toList) ∧
    parse "A || (A | B > C) ~ D".toList = .error (.ambiguousGrouping "A | B > C".toList) := by
  have group : parse "(A | B > C) ~ D".toList =
      .error (.ambiguousGrouping "A | B > C".toList) := by
    have run : Group.IsRun (tokenize "(A | B > C)".toList) := by decide
    have spans : Group.spans 0 (tokenize "(A | B > C) ~ D".toList) = .ok [⟨0, 5⟩] :=
      @Group.IsRun.spans _ [.symbol (.operator .fuse), .name ['D']] run 0 []
        (by simp [Group.spans, Group.opens])
    exact @parse_eq_error_of_group _ [] _ _ _ (by decide) (by rfl) (by decide) spans (by simp)
      parse_ambiguous
  have chain : parse "A | B".toList = .ok (.chain .blend [.leaf ['A'], .leaf ['B']]) := by cbv
  have first : parse ['A'] = .ok (.leaf ['A']) := by cbv
  have last : parse ['C'] = .ok (.leaf ['C']) := by cbv
  refine ⟨?_, ?_, ?_⟩
  · have levels := @parse_levels "A | B || C".toList .blend (by rintro (_ | _ | _) <;> decide)
      (by rfl)
    have parts : levelsOf "A | B || C".toList =
        [[.name ['A'], .symbol (.operator .blend), .name ['B']], [.name ['C']]] := by decide
    rw [parts] at levels
    exact levels.2.1 [.chain .blend [.leaf ['A'], .leaf ['B']], .leaf ['C']]
      (.cons chain (.cons last .nil))
  · have levels := @parse_levels "A || A | B > C || A > B ~ C".toList .blend
      (by rintro (_ | _ | _) <;> decide) (by rfl)
    refine (levels.2.2 [[.name ['A']]] (tokenize "A | B > C".toList)
      [tokenize "A > B ~ C".toList] _ (by decide) ?_ parse_ambiguous).1 (by rfl)
    simpa using ⟨_, first⟩
  · have levels := @parse_levels "A || (A | B > C) ~ D".toList .blend
      (by rintro (_ | _ | _) <;> decide) (by rfl)
    refine ((levels.2.2 [[.name ['A']]] (tokenize "(A | B > C) ~ D".toList)
      [] _ (by decide) ?_ group).2 (by decide)).1
    simpa using ⟨_, first⟩

end Tree

end GenreRelations
