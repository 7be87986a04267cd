import GenreRelations.Proofs.Compositional
import GenreRelations.Proofs.Depth
import GenreRelations.Tree.Walk

/-!
Expressions without parentheses. There is nothing to group by, so a level that mixes operators is
ambiguous, and any other level is a name or names joined by one operator. `Tree.parse_plain` says
what such an expression is parsed as, whatever levels it has.
-/

namespace GenreRelations

open Expression (joined levelsOf pairUp Mixed)
open Segment (IsLevel join tokenize)

namespace Segment

/-- The text of the segment, where a divider counts as the operator of its relation. -/
def token : Segment → Text
  | symbol (.divider r) => r.operator
  | s => s.text

/-- There is no parenthesis in the segments. -/
def Plain (ss : List Segment) : Prop := ∀ s ∈ ss, '(' ∉ s.text ∧ ')' ∉ s.text

/-- A character that is not blank stands in a segment only if it stands in the text. -/
theorem mem_of_mem_tokenize {text : Text} {c : Char} (solid : Text.isBlank c = false) {s : Segment}
    (member : s ∈ tokenize text) (isIn : c ∈ s.text) : c ∈ text := by
  obtain ⟨front, back, parts⟩ := List.append_of_mem member
  have piece : [s] <:+: tokenize text := ⟨front, back, by simp [parts]⟩
  have alone : join [s] = s.text := Text.unwords_singleton s.text
  have joined : c ∈ join (tokenize text) := (join_piece piece).subset (alone ▸ isIn)
  rw [join_tokenize, ← List.count_pos_iff, Text.count_unwords_words solid] at joined
  exact List.count_pos_iff.mp joined

theorem plain_tokenize {text : Text} (opening : '(' ∉ text) (closing : ')' ∉ text) :
    Plain (tokenize text) := by
  intro s member
  constructor
  · exact fun isIn => opening (mem_of_mem_tokenize (by decide) member isIn)
  · exact fun isIn => closing (mem_of_mem_tokenize (by decide) member isIn)

theorem map_joined {β : Type} (f : Segment → β) (s : Symbol) (sss : List (List Segment)) :
    (joined s sss).map f = [f (symbol s)].intercalate (sss.map (List.map f)) := by
  induction sss with
  | nil => rfl
  | cons ss sss ih =>
    cases sss with
    | nil => simp [joined_singleton, List.intercalate]
    | cons ts rest =>
      rw [joined_cons_cons, List.map_append, List.map_cons, ih]
      simp [List.intercalate]

end Segment

namespace Group

theorem spans_of_plain {ss : List Segment} (plain : Segment.Plain ss) (i : Nat) :
    spans i ss = .ok [] := by
  induction ss generalizing i with
  | nil => rw [spans]
  | cons s ss ih =>
    have first := (plain s List.mem_cons_self).1
    have closed : opens s = false := by
      unfold opens
      split
      · simp [Segment.text] at first
      · rfl
    rw [spans, if_neg (by simp [closed])]
    exact ih (fun t member => plain t (List.mem_cons_of_mem _ member)) (i + 1)

end Group

/-- The tree of a level without parentheses: a name, a pair, or a chain of three names or more. -/
inductive LevelTree : List Segment → Tree → Prop
  | leaf (n : Text) : LevelTree [.name n] (.leaf n)
  | pair (m : Text) (r : Relation) (n : Text) :
      LevelTree [.name m, .symbol (.operator r), .name n] (.pair (.leaf m) r (.leaf n))
  | chain (r : Relation) {ns : List Text} (several : 3 ≤ ns.length) :
      LevelTree (Segment.joined (.operator r) (ns.map fun n => [.name n])) (.chain r (ns.map .leaf))

namespace Expression

/-! ### Levels -/

theorem symbols_ofSegment (ss : List Segment) :
    ((ss.map Part.ofSegment).map Part.element).filterMap Element.symbol? =
      ss.filterMap fun s => s.symbol?.map Symbol.relation := by
  rw [List.filterMap_map, List.filterMap_map]
  congr 1
  funext s
  cases s <;> rfl

theorem slots_ofSegments (ss : List Segment) :
    (Level.ofSegments ss).slots = (ss.map Part.ofSegment).map Part.slot := by
  rw [(Level.holds_ofSegments Arena.lawful ss).slots Arena.lawful, List.map_map]
  congr 1
  funext s
  cases s <;> rfl

/-- A level without parentheses that mixes operators has nothing to group by. -/
theorem parseLevel_of_mixed_plain {ss : List Segment} (plain : Segment.Plain ss) (mixed : Mixed ss)
    (text : Text) : Tree.parseLevel text ss = .error (.ambiguousGrouping text) := by
  obtain ⟨r, q, rest, relations⟩ := mixed.relationsOf
  rw [parseLevel_of_spans relations (Group.spans_of_plain plain 0)]
  have slots : (spliced ss [] []).slots = (ss.map Part.ofSegment).map Part.slot :=
    slots_ofSegments ss
  have balanced : ∀ n, Part.operand (.name n) ∈ ss.map Part.ofSegment → n.balance = 0 := by
    intro n member
    obtain ⟨s, isIn, same⟩ := List.mem_map.mp member
    cases s with
    | symbol s => simp [Part.ofSegment] at same
    | name m =>
      obtain rfl : m = n := by simpa [Part.ofSegment] using same
      obtain ⟨opening, closing⟩ := plain _ isIn
      exact Text.balance_of_plain opening closing
  refine assemble_of_several (slots.symm ▸ Part.mapM_elementOf.mpr ⟨rfl, balanced⟩) ?_
  rw [symbols_ofSegment]
  show 1 < (relationsOf ss).length
  simp [relations]

/-- A level that does not mix operators is names with one operator between them. -/
theorem exists_names_of_not_mixed {ss : List Segment} (level : IsLevel ss) (uniform : ¬ Mixed ss) :
    ∃ r ns, ss = Segment.joined (.operator r) (ns.map fun n => [.name n]) ∧ ns ≠ [] ∧
      ∀ n ∈ ns, n.IsName := by
  have agree : ∃ r, ∀ s, .symbol s ∈ ss → s.relation = r := by
    by_cases symbols : ∃ s, .symbol s ∈ ss
    · obtain ⟨s, symbol⟩ := symbols
      refine ⟨s.relation, fun q member => ?_⟩
      by_contra differ
      exact uniform ⟨q.relation, mem_relationsOf.mpr ⟨q, member, rfl⟩, s.relation,
        mem_relationsOf.mpr ⟨s, symbol, rfl⟩, differ⟩
    · exact ⟨.blend, fun s member => absurd ⟨s, member⟩ symbols⟩
  obtain ⟨r, only⟩ := agree
  exact ⟨r, exists_names level only⟩

theorem parseLevel_of_chain (text : Text) (r : Relation) {ns : List Text}
    (names : ∀ n ∈ ns, n.IsName) (several : 2 ≤ ns.length) :
    Tree.parseLevel text (Segment.joined (.operator r) (ns.map fun n => [.name n])) =
      .ok (.chain r (ns.map .leaf)) :=
  (Reads.chain r names several).parseLevel text

theorem exists_levelTree {ss : List Segment} (level : IsLevel ss) (uniform : ¬ Mixed ss)
    (text : Text) : ∃ t, Tree.parseLevel text ss = .ok t ∧ LevelTree ss (pairUp t) := by
  obtain ⟨r, ns, rfl, nonempty, names⟩ := exists_names_of_not_mixed level uniform
  match ns with
  | [] => exact absurd rfl nonempty
  | [n] =>
    refine ⟨.leaf n, ?_, .leaf n⟩
    exact (Reads.name (names n List.mem_cons_self)).parseLevel text
  | [m, n] => exact ⟨_, parseLevel_of_chain text r names (by simp), .pair m r n⟩
  | l :: m :: n :: ns =>
    exact ⟨_, parseLevel_of_chain text r names (by simp), .chain r (by simp)⟩

theorem exists_mapM_of_forall {α β ε : Type} {f : α → Except ε β} {P : α → β → Prop} {xs : List α}
    (each : ∀ x ∈ xs, ∃ y, f x = .ok y ∧ P x y) :
    ∃ ys, xs.mapM f = .ok ys ∧ List.Forall₂ P xs ys := by
  obtain ⟨ys, read⟩ := exists_mapM_eq_ok_iff.mpr fun x member => (each x member).imp fun _ => And.left
  refine ⟨ys, read, ?_⟩
  refine ((List.forall₂_and_left _ _).mpr ⟨each, mapM_eq_ok_iff.mp read⟩).imp ?_
  rintro x y ⟨⟨z, here, holds⟩, same⟩
  obtain rfl : z = y := Except.ok.inj (here.symm.trans same)
  exact holds

/-! ### Tokens -/

theorem tokens_of_names (r : Relation) (ns : List Text) :
    (Tree.chain r (ns.map .leaf)).tokens =
      (Segment.joined (.operator r) (ns.map fun n => [.name n])).map Segment.token := by
  rw [Tree.tokens_chain, Segment.map_joined, List.map_map, List.map_map]
  rfl

end Expression

theorem LevelTree.tokens {ss : List Segment} {t : Tree} (level : LevelTree ss t) :
    t.tokens = ss.map Segment.token := by
  cases level with
  | leaf n => rfl
  | pair m r n => rfl
  | chain r several => exact Expression.tokens_of_names r _

theorem LevelTree.map_tokens {sss : List (List Segment)} {ts : List Tree}
    (trees : List.Forall₂ LevelTree sss ts) :
    ts.map Tree.tokens = sss.map (List.map Segment.token) := by
  induction trees with
  | nil => rfl
  | cons level _ ih => rw [List.map_cons, List.map_cons, level.tokens, ih]

namespace Expression

/-! ### Texts without parentheses -/

section

variable {text : Text} (opening : '(' ∉ text) (closing : ')' ∉ text)
  (placed : checkPositions text (tokenize text) = .ok ())

include opening closing placed

/-- Without a divider the text is one level. -/
theorem parse_plain_level {s : Symbol} (symbol : .symbol s ∈ tokenize text)
    (undivided : ∀ s ∈ tokenize text, s.isDivider = false) :
    (Mixed (tokenize text) → Tree.parse text = .error (.ambiguousGrouping text)) ∧
    (¬ Mixed (tokenize text) → ∃ r, ∃ ns : List Text, Tree.parse text = .ok (.chain r (ns.map .leaf)) ∧
      tokenize text = Segment.joined (.operator r) (ns.map fun n => [.name n]) ∧
      2 ≤ ns.length) := by
  have level : IsLevel (tokenize text) :=
    ⟨(checkPositions_eq_ok_iff (Segment.proper_tokenize text)).mp placed, undivided⟩
  rw [parse_eq_parseLevel level (level.alternating.several symbol)]
  constructor
  · intro mixed
    exact parseLevel_of_mixed_plain (Segment.plain_tokenize opening closing) mixed text
  · intro uniform
    obtain ⟨r, ns, parts, nonempty, names⟩ := exists_names_of_not_mixed level uniform
    have several : 2 ≤ ns.length := by
      match ns with
      | [] => exact absurd rfl nonempty
      | [n] => simp [parts, Segment.joined_singleton] at symbol
      | m :: n :: ns => simp
    exact ⟨r, ns, parts ▸ parseLevel_of_chain text r names several, parts, several⟩

/-- With a divider every level gives a tree of its own, unless one of them mixes operators. -/
theorem parse_plain_levels {d : Relation}
    (kind : ∀ r, .symbol (.divider r) ∈ tokenize text ↔ r = d) :
    ((∃ level ∈ levelsOf text, Mixed level) →
      Tree.parse text = .error (.ambiguousGrouping text)) ∧
    ((∀ level ∈ levelsOf text, ¬ Mixed level) → ∃ ts,
      Tree.parse text = .ok (.sequence (joined d ts)) ∧
      List.Forall₂ LevelTree (levelsOf text) ts) := by
  have isLevel : ∀ level ∈ levelsOf text, IsLevel level :=
    fun _ member => isLevel_of_mem_levelsOf kind placed member
  have plain : ∀ level ∈ levelsOf text, Segment.Plain level := by
    intro level member s isIn
    exact Segment.plain_tokenize opening closing s ((piece_of_mem_splitOnP member).subset isIn)
  rw [parse_eq_parseLevels kind placed]
  constructor
  · rintro ⟨level, member, mixed⟩
    cases read : (levelsOf text).mapM (Tree.parseLevel text) with
    | ok ts =>
      obtain ⟨t, good⟩ := exists_mapM_eq_ok_iff.mp ⟨ts, read⟩ level member
      rw [parseLevel_of_mixed_plain (plain level member) mixed text] at good
      cases good
    | error e =>
      obtain ⟨front, first, back, parts, -, failed⟩ := mapM_eq_error_iff.mp read
      have isIn : first ∈ levelsOf text := by simp [parts]
      by_cases mixes : Mixed first
      · rw [parseLevel_of_mixed_plain (plain first isIn) mixes text] at failed
        obtain rfl := Except.error.inj failed
        rfl
      · obtain ⟨t, good, -⟩ := exists_levelTree (isLevel first isIn) mixes text
        rw [good] at failed
        cases failed
  · intro uniform
    obtain ⟨us, read, trees⟩ := exists_mapM_of_forall fun level member =>
      exists_levelTree (isLevel level member) (uniform level member) text
    refine ⟨us.map pairUp, ?_, List.forall₂_map_right_iff.mpr trees⟩
    rw [read]
    rfl

end

end Expression

namespace Tree

open Expression

/-- What a text with symbols but without parentheses is parsed as, once its dividers agree and its
symbols are in place. -/
theorem parse_plain {text : Text} {s : Symbol} {found : Option Relation} (opening : '(' ∉ text)
    (closing : ')' ∉ text) (symbol : .symbol s ∈ tokenize text)
    (divided : dividerOf text (tokenize text) = .ok found)
    (placed : checkPositions text (tokenize text) = .ok ()) :
    ((∃ level ∈ levelsOf text, Mixed level) → parse text = .error (.ambiguousGrouping text)) ∧
    ((∀ level ∈ levelsOf text, ¬ Mixed level) →
      ∃ t, parse text = .ok t ∧ t.flat = (tokenize text).map Segment.token ∧
        (found = none → ∃ r, ∃ ns : List Text, t = .chain r (ns.map .leaf) ∧ 2 ≤ ns.length ∧
          tokenize text = Segment.joined (.operator r) (ns.map fun n => [.name n])) ∧
        ∀ d, found = some d → ∃ ts, t = .sequence (joined d ts) ∧
          List.Forall₂ LevelTree (levelsOf text) ts) := by
  cases found with
  | none =>
    have undivided := dividerOf_eq_ok_none_iff.mp divided
    have whole : levelsOf text = [tokenize text] := List.splitOnP_eq_singleton undivided
    have outcome := parse_plain_level opening closing placed symbol undivided
    simp only [whole, List.mem_singleton, exists_eq_left, forall_eq]
    refine ⟨outcome.1, fun uniform => ?_⟩
    obtain ⟨r, ns, read, parts, several⟩ := outcome.2 uniform
    refine ⟨_, read, ?_, fun _ => ⟨r, ns, rfl, several, parts⟩, by simp⟩
    rw [flat_eq_tokens, tokens_of_names, parts]
  | some d =>
    have kind := dividerOf_eq_ok_some_iff.mp divided
    have outcome := parse_plain_levels opening closing placed kind
    refine ⟨outcome.1, fun uniform => ?_⟩
    obtain ⟨ts, read, trees⟩ := outcome.2 uniform
    refine ⟨_, read, ?_, by simp, ?_⟩
    · rw [flat_eq_tokens, tokens, elementsTokens_joined, LevelTree.map_tokens trees,
        ← joined_levelsOf kind, Segment.map_joined]
      rfl
    · rintro q ⟨⟩
      exact ⟨ts, rfl, trees⟩

theorem parse_plain_divided :
    (∃ t, parse "A | B || C || D > E > F".toList = .ok t ∧
      t = .sequence [.tree (.pair (.leaf ['A']) .blend (.leaf ['B'])), .symbol .blend,
        .tree (.leaf ['C']), .symbol .blend,
        .tree (.chain .derive [.leaf ['D'], .leaf ['E'], .leaf ['F']])] ∧
      t.flat = ["A", "|", "B", "|", "C", "|", "D", ">", "E", ">", "F"].map String.toList) ∧
    parse "A || B | C > D".toList = .error (.ambiguousGrouping "A || B | C > D".toList) ∧
    parse "A | B > C".toList = .error (.ambiguousGrouping "A | B > C".toList) := by
  refine ⟨?_, ?_, ?_⟩
  · have outcome := @parse_plain "A | B || C || D > E > F".toList (.divider .blend) (some .blend)
      (by decide) (by decide) (by decide) (by rfl) (by rfl)
    obtain ⟨t, read, flat, -⟩ := outcome.2 (by decide)
    refine ⟨t, read, ?_, flat.trans (by decide)⟩
    exact Except.ok.inj (read.symm.trans (by cbv))
  · have outcome := @parse_plain "A || B | C > D".toList (.divider .blend) (some .blend)
      (by decide) (by decide) (by decide) (by rfl) (by rfl)
    exact outcome.1 (by decide)
  · have outcome := @parse_plain "A | B > C".toList (.operator .blend) none
      (by decide) (by decide) (by decide) (by rfl) (by rfl)
    exact outcome.1 (by decide)

end Tree

end GenreRelations
